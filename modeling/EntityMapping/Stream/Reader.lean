import EntityMapping.Stream.Error
/-!
# Reading a document as a stream of tokens

A reader stands at a position of a token stream. A mark is a reader that was
kept: going back to it restores the position exactly. Typed reads and
boundaries are checked before anything is consumed; names, whole values and
skips consume the token they complain about.
-/

namespace EntityMapping

/-- A position in a token stream. -/
structure Reader where
  /-- How many tokens were consumed. -/
  position : Nat
  /-- The tokens still to come. -/
  rest : List Token

/-- A reading step: a result or a failure, and the reader after it. -/
abbrev ReadM := ExceptT DocumentError (StateM Reader)

namespace Reader

/-- A reader at the start of a value. -/
def ofBson (value : Bson) : Reader := ⟨0, value.tokens⟩

/-- A reader at the start of a document. -/
def ofDocument (document : Document) : Reader := ofBson (.document document)

/-- Whether every token has been consumed. -/
def isExhausted (reader : Reader) : Bool := reader.rest.isEmpty

/-- The next token, left in place. -/
def peek : ReadM Token := do
  match (← get).rest with
  | token :: _ => pure token
  | [] => throw .endOfStream

/-- The next token, consumed. -/
def advance : ReadM Token := do
  let reader ← get
  match reader.rest with
  | token :: rest =>
    set (⟨reader.position + 1, rest⟩ : Reader)
    pure token
  | [] => throw .endOfStream

/-- Consume a boundary; any other token is left in place. -/
def expect (kind : Boundary) : ReadM Unit := do
  let token ← peek
  match token with
  | .boundary found =>
    if found = kind then discard advance
    else throw (.unexpectedToken (.boundary kind) token)
  | _ => throw (.unexpectedToken (.boundary kind) token)

/-- The type of the value that starts at a token, or a complaint about it. -/
def typeOf (expected : Expectation) (token : Token) : ReadM ElementType :=
  match token.elementType? with
  | some kind => pure kind
  | none => throw (.unexpectedToken expected token)

/-- The type of the next entry of the enclosing scope, none at its end. Nothing is
consumed; inside a document the name comes next. -/
def entryType : ReadM (Option ElementType) := do
  let token ← peek
  match token with
  | .boundary .endDocument => pure none
  | .boundary .endArray => pure none
  | .name _ =>
    match (← get).rest with
    | _ :: value :: _ => some <$> typeOf .value value
    | _ => throw .endOfStream
  | other => some <$> typeOf .entry other

/-- Consume the next name. -/
def readName : ReadM String := do
  let token ← advance
  match token with
  | .name name => pure name
  | other => throw (.unexpectedToken .fieldName other)

/-- The type of the value that starts here. -/
def currentType : ReadM ElementType := do
  typeOf .value (← peek)

mutual

/-- Consume a value that has at most the given count of tokens. -/
def valueWithin : Nat → ReadM Bson
  | 0 => throw .endOfStream
  | fuel + 1 => do
    let token ← advance
    match token with
    | .scalar value => pure value
    | .boundary .startDocument => Bson.document <$> entriesWithin fuel []
    | .boundary .startArray => Bson.array <$> itemsWithin fuel []
    | other => throw (.unexpectedToken .value other)

/-- Consume entries up to the end of their document. -/
def entriesWithin : Nat → Document → ReadM Document
  | 0, _ => throw .endOfStream
  | fuel + 1, entries => do
    let token ← advance
    match token with
    | .boundary .endDocument => pure entries
    | .name name => do
      let value ← valueWithin fuel
      entriesWithin fuel (Keyed.insert name value entries)
    | other => throw (.unexpectedToken .fieldName other)

/-- Consume items up to the end of their array. -/
def itemsWithin : Nat → List Bson → ReadM (List Bson)
  | 0, _ => throw .endOfStream
  | fuel + 1, items => do
    let token ← peek
    match token with
    | .boundary .endArray => do
      discard advance
      pure items
    | _ => do
      let value ← valueWithin fuel
      itemsWithin fuel (items ++ [value])

end

/-- Consume the value that starts here, whatever its type. -/
def readValue : ReadM Bson := do
  valueWithin ((← get).rest.length + 1)

/-- Consume a value of one type; a value of another type is left in place. -/
def readTyped (expected : ElementType) : ReadM Bson := do
  let found ← currentType
  if found = expected then readValue
  else throw (.typeMismatch expected found)

/-- Consume a text. -/
def readString : ReadM String := do
  match ← readTyped .string with
  | .string value => pure value
  | other => throw (.typeMismatch .string other.elementType)

/-- Consume a null. -/
def readNull : ReadM Unit :=
  discard (readTyped .null)

/-- Consume a document. -/
def readDocument : ReadM Document := do
  match ← readTyped .embeddedDocument with
  | .document entries => pure entries
  | other => throw (.typeMismatch .embeddedDocument other.elementType)

/-- Consume tokens until the given count of open scopes is closed. -/
def closeScopes : Nat → Nat → List Token → Except DocumentError Unit × Reader
  | 0, position, rest => (.ok (), ⟨position, rest⟩)
  | _ + 1, position, [] => (.error .endOfStream, ⟨position, []⟩)
  | depth + 1, position, token :: rest =>
    closeScopes (token.depthAfter (depth + 1)) (position + 1) rest

/-- Consume the value that starts here without building it. -/
def skipValue : ReadM Unit := do
  let token ← advance
  match token with
  | .scalar _ => pure ()
  | .boundary .startDocument => close
  | .boundary .startArray => close
  | other => throw (.unexpectedToken .value other)
where
  /-- Consume the rest of the scope that was just opened. -/
  close : ReadM Unit := do
    let reader ← get
    let (outcome, after) := closeScopes 1 reader.position reader.rest
    set after
    match outcome with
    | .ok _ => pure ()
    | .error cause => throw cause

end Reader

end EntityMapping
