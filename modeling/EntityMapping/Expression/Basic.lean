import EntityMapping.Expression.Accumulation
/-!
# Aggregation expressions

An expression is single-valued, and then written as a bare value, or general,
and then written as a document with one entry from the name of its operation
to its payload.
-/

namespace EntityMapping

/-- The time unit of a window operator. -/
inductive TimeUnit where
  | week | day | hour | minute | second | millisecond
  deriving DecidableEq

namespace TimeUnit

/-- The word for a time unit. -/
def name : TimeUnit → String
  | week => "week"
  | day => "day"
  | hour => "hour"
  | minute => "minute"
  | second => "second"
  | millisecond => "millisecond"

/-- Every time unit. -/
def all : List TimeUnit := [week, day, hour, minute, second, millisecond]

/-- The time unit that a word stands for. -/
def ofName (text : String) : Option TimeUnit :=
  all.find? fun unit => decide (unit.name = text)

/-- The word for a time unit stands for it alone. -/
theorem ofName_name (unit : TimeUnit) : ofName unit.name = some unit := by
  cases unit <;> decide

end TimeUnit

/-- The arguments of an operator. -/
inductive Arguments (ε : Type) where
  /-- One argument, standing for itself. -/
  | single (argument : ε)
  /-- A list of arguments. -/
  | list (arguments : List ε)
  /-- Named arguments. -/
  | named (arguments : List (String × ε))

/-- An aggregation expression. -/
inductive Expression where
  /-- A reference to a field path. -/
  | field (path : String)
  /-- A plain value. -/
  | value (value : Bson)
  /-- Named expressions. -/
  | document (entries : List (String × Expression))
  /-- A list of expressions. -/
  | array (items : List Expression)
  /-- An operator applied to arguments. -/
  | operator (operation : String) (arguments : Arguments Expression)
  /-- An accumulator that pushes values. -/
  | push (source : Accumulation Expression)
  /-- Arrays zipped together. -/
  | zip (inputs : List Expression) (useLongestLength : Option Bool)
      (defaults : Option Expression)
  /-- A derivative or an integral over a window. -/
  | calculus (operation : String) (input : Expression) (unit : Option TimeUnit)
  /-- A function given by its source text. -/
  | function (body : String) (arguments : List Expression) (language : String)

namespace Expression

/-- Whether the expression is written as a bare value. -/
def isSingleValued : Expression → Bool
  | field _ => true
  | value _ => true
  | document _ => true
  | array _ => true
  | _ => false

/-- The name of the operation of a general expression. -/
def operation? : Expression → Option String
  | operator operation _ => some operation
  | push _ => some "$push"
  | zip _ _ _ => some "$zip"
  | calculus operation _ _ => some operation
  | function _ _ _ => some "$function"
  | _ => none

/-- A reference to a field; a dollar sign in front is added when it is missing. -/
def ofField (name : String) : Expression :=
  if name.toList.head? == some '$' then field name else field ("$" ++ name)

/-- An operator with one argument. -/
def unary (operation : String) (argument : Expression) : Expression :=
  operator operation (.single argument)

/-- An operator with a list of arguments. -/
def variadic (operation : String) (arguments : List Expression) : Expression :=
  operator operation (.list arguments)

/-- An operator with two arguments. -/
def binary (operation : String) (left right : Expression) : Expression :=
  variadic operation [left, right]

/-- A value that is not to be read as an expression. -/
def literal (content : Bson) : Expression := unary "$literal" (value content)

/-- The sum of operands. -/
def add (operands : List Expression) : Expression := variadic "$add" operands

/-- The product of operands. -/
def multiply (operands : List Expression) : Expression := variadic "$multiply" operands

/-- The difference of two operands. -/
def subtract (minuend subtrahend : Expression) : Expression :=
  binary "$subtract" minuend subtrahend

/-- The quotient of two operands. -/
def divide (dividend divisor : Expression) : Expression := binary "$divide" dividend divisor

/-- The absolute value. -/
def abs (argument : Expression) : Expression := unary "$abs" argument

/-- Equality of two operands. -/
def eq (left right : Expression) : Expression := binary "$eq" left right

/-- Inequality of two operands. -/
def ne (left right : Expression) : Expression := binary "$ne" left right

/-- Whether the left operand is greater. -/
def gt (left right : Expression) : Expression := binary "$gt" left right

/-- Whether the left operand is greater or equal. -/
def gte (left right : Expression) : Expression := binary "$gte" left right

/-- Whether the left operand is less. -/
def lt (left right : Expression) : Expression := binary "$lt" left right

/-- Whether the left operand is less or equal. -/
def lte (left right : Expression) : Expression := binary "$lte" left right

/-- The three-way comparison of two operands. -/
def cmp (left right : Expression) : Expression := binary "$cmp" left right

/-- The accumulated sum. -/
def sum (argument : Expression) : Expression := unary "$sum" argument

/-- The accumulated average. -/
def avg (argument : Expression) : Expression := unary "$avg" argument

/-- The first accumulated value. -/
def first (argument : Expression) : Expression := unary "$first" argument

/-- The last accumulated value. -/
def last (argument : Expression) : Expression := unary "$last" argument

/-- The least accumulated value. -/
def min (argument : Expression) : Expression := unary "$min" argument

/-- The greatest accumulated value. -/
def max (argument : Expression) : Expression := unary "$max" argument

/-- The set of accumulated values. -/
def addToSet (argument : Expression) : Expression := unary "$addToSet" argument

/-- The list of the values of one expression. -/
def pushValue (argument : Expression) : Expression := push (.single argument)

/-- The year of a date. -/
def year (date : Expression) : Expression := unary "$year" date

/-- The month of a date. -/
def month (date : Expression) : Expression := unary "$month" date

/-- The day of the year of a date. -/
def dayOfYear (date : Expression) : Expression := unary "$dayOfYear" date

/-- The day of the month of a date. -/
def dayOfMonth (date : Expression) : Expression := unary "$dayOfMonth" date

/-- The count of items of an array. -/
def size (argument : Expression) : Expression := unary "$size" argument

/-- Arrays put one after the other. -/
def concatArrays (arrays : List Expression) : Expression := variadic "$concatArrays" arrays

/-- Texts put one after the other. -/
def concat (parts : List Expression) : Expression := variadic "$concat" parts

/-- A text in lower case. -/
def toLower (argument : Expression) : Expression := unary "$toLower" argument

/-- A text in upper case. -/
def toUpper (argument : Expression) : Expression := unary "$toUpper" argument

/-- The derivative over a window. -/
def derivative (input : Expression) (unit : Option TimeUnit) : Expression :=
  calculus "$derivative" input unit

/-- The integral over a window. -/
def integral (input : Expression) (unit : Option TimeUnit) : Expression :=
  calculus "$integral" input unit

/-- The standard deviation of a whole population. -/
def stdDevPop (argument : Expression) : Expression := unary "$stdDevPop" argument

/-- The standard deviation of a sample. -/
def stdDevSamp (argument : Expression) : Expression := unary "$stdDevSamp" argument

/-- A function in the standard scripting language. -/
def scripted (body : String) (arguments : List Expression) : Expression :=
  function body arguments "js"

end Expression

end EntityMapping
