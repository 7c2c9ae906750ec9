import EntityMapping.Binary64.Basic
import EntityMapping.Binary64.Reading
import EntityMapping.Binary64.Rounding
import EntityMapping.Binary64.Shortest
import EntityMapping.Bson.Basic
import EntityMapping.Bson.Equality
import EntityMapping.Bson.Wire
import EntityMapping.Codec.Basic
import EntityMapping.Conversion
import EntityMapping.Decidable
import EntityMapping.Decoding.Basic
import EntityMapping.Encoding.Basic
import EntityMapping.Expression.Accumulation
import EntityMapping.Expression.Basic
import EntityMapping.Expression.Meaning
import EntityMapping.Expression.Writing
import EntityMapping.FieldType
import EntityMapping.Filter.Basic
import EntityMapping.Filter.Document
import EntityMapping.Filter.Shape
import EntityMapping.Keyed
import EntityMapping.Lifecycle.Edit
import EntityMapping.Lifecycle.Hook
import EntityMapping.Lifecycle.Kind
import EntityMapping.Mapper.Assembly
import EntityMapping.Mapper.Basic
import EntityMapping.Mapper.Discriminators
import EntityMapping.Mapper.Operations
import EntityMapping.Mapper.Path
import EntityMapping.Mapping.Error
import EntityMapping.Model.Basic
import EntityMapping.Model.Declaration
import EntityMapping.ObjectId
import EntityMapping.Options.Basic
import EntityMapping.Options.Text
import EntityMapping.Query.Basic
import EntityMapping.Query.FieldEnd
import EntityMapping.Stage.Basic
import EntityMapping.Stage.Meaning
import EntityMapping.Stage.Writing
import EntityMapping.Stream.Error
import EntityMapping.Stream.Reader
import EntityMapping.Stream.Token
import EntityMapping.Stream.Writer
import EntityMapping.Text.Blank
import EntityMapping.Text.Digits
import EntityMapping.Text.Integer
import EntityMapping.Text.Json
import EntityMapping.Text.Pattern
import EntityMapping.Value.Basic
import EntityMapping.Value.Equality
import EntityMapping.Proofs.Bson.Distinct
import EntityMapping.Proofs.Steps
import EntityMapping.Proofs.Decoding.Meaning
import EntityMapping.Proofs.Decoding.Reading
import EntityMapping.Proofs.Model.Checked
import EntityMapping.Proofs.Mapper.Sound
import EntityMapping.Proofs.Decoding.Kind
import EntityMapping.Proofs.Encoding.Stored
import EntityMapping.Proofs.Stream.Places
import EntityMapping.Proofs.Encoding.Writing
import EntityMapping.Proofs.Lifecycle.Idle
import EntityMapping.Proofs.Value.Induction
import EntityMapping.Proofs.Mapper.Conforms
import EntityMapping.Proofs.Decoding.Soundness
import EntityMapping.Proofs.Encoding.Success
import EntityMapping.Proofs.Keyed.Pairing
import EntityMapping.Proofs.Value.Alike
import EntityMapping.Proofs.Mapper.Placed
import EntityMapping.Proofs.Mapper.ReadBack
import EntityMapping.Proofs.Mapper.Entries
import EntityMapping.Proofs.Mapper.RoundTrip
import EntityMapping.Proofs.Filter.Meaning
import EntityMapping.Proofs.Keyed.Settling
import EntityMapping.Proofs.Stream.Grammar
import EntityMapping.Proofs.Bson.Subvalues
import EntityMapping.Proofs.Stream.Positions
import EntityMapping.Proofs.Decoding.Cursor
import EntityMapping.Proofs.Mapper.Subtypes
import EntityMapping.Proofs.Stream.Scopes
import EntityMapping.Proofs.Stream.Atomic
import EntityMapping.Proofs.Expression.Compile
import EntityMapping.Proofs.Expression.Modes
import EntityMapping.Proofs.Stage.Compile
import EntityMapping.Proofs.Stage.Grouping
import EntityMapping.Proofs.Mapper.Keys
import EntityMapping.Proofs.Encoding.Shape
import EntityMapping.Proofs.Mapper.Recognition
import EntityMapping.Proofs.Value.Agreement
import EntityMapping.Proofs.Mapper.Anywhere
import EntityMapping.Proofs.Mapper.Ancestry
import EntityMapping.Proofs.Mapper.Acceptance
import EntityMapping.Proofs.Encoding.Overlay
import EntityMapping.Proofs.Mapper.Translation
import EntityMapping.Proofs.Mapper.Positions
import EntityMapping.Proofs.Value.Following
import EntityMapping.Proofs.Mapper.Criteria
import EntityMapping.Proofs.Encoding.Fitting
import EntityMapping.Proofs.Decoding.Unhooked
import EntityMapping.Proofs.Decoding.Failures
import EntityMapping.Proofs.Decoding.Outcome
import EntityMapping.Proofs.Decoding.Fields
import EntityMapping.Proofs.Value.Conversion
import EntityMapping.Proofs.Value.Declared
import EntityMapping.Proofs.Binary64.Narrowing
import EntityMapping.Proofs.Text.Numerals
import EntityMapping.Proofs.Value.Lossless
import EntityMapping.Proofs.Bson.Pieces
import EntityMapping.Proofs.Bson.Bytes
import EntityMapping.Proofs.Mapper.Bytes
import EntityMapping.Proofs.Lifecycle.Recording
import EntityMapping.Proofs.Lifecycle.Once
import EntityMapping.Proofs.Mapper.Collections
import EntityMapping.Proofs.Query.Calls
import EntityMapping.Proofs.Query.Checked
import EntityMapping.Proofs.Encoding.Identity
import EntityMapping.Proofs.Value.Reflexive
import EntityMapping.Proofs.Value.Equivalence
import EntityMapping.Proofs.Model.Inheritance
import EntityMapping.Proofs.Decoding.Entries
import EntityMapping.Proofs.Decoding.Rearranged
import EntityMapping.Proofs.Mapper.Untyped
