/-!
# Literal text in a pattern

A pattern that matches one text literally: every character with a meaning of
its own in patterns is preceded by a backslash.
-/

namespace EntityMapping.Pattern

/-- The characters with a meaning of their own. -/
def special : List Char :=
  ['\\', '.', '+', '*', '?', '(', ')', '|', '[', ']', '\x7b', '\x7d', '^', '$', '#', '&', '-',
   '~']

/-- The characters that match the given ones literally. -/
def escape (characters : List Char) : List Char :=
  characters.flatMap fun c => if special.contains c then ['\\', c] else [c]

/-- A pattern for a literal text, bound to the start or the end of the subject where
asked for. -/
def literal (atStart : Bool) (text : String) (atEnd : Bool) : String :=
  String.ofList
    ((if atStart then ['^'] else []) ++ escape text.toList ++ (if atEnd then ['$'] else []))

end EntityMapping.Pattern
