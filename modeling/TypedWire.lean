import TypedWire.Binary.Arithmetic
import TypedWire.Binary.Format
import TypedWire.Binary.Shortest
import TypedWire.Binding.Bind
import TypedWire.Binding.Error
import TypedWire.Binding.Infer
import TypedWire.Binding.ScalarBase
import TypedWire.Bytes
import TypedWire.Cache
import TypedWire.Calendar.Basic
import TypedWire.Calendar.Civil
import TypedWire.Calendar.Print
import TypedWire.Calendar.Scan
import TypedWire.Calendar.Wire
import TypedWire.Codec.Basic
import TypedWire.Codec.Decode
import TypedWire.Codec.Encode
import TypedWire.Codec.Into
import TypedWire.Codec.Scalar
import TypedWire.Descriptor.Basic
import TypedWire.Descriptor.Dialect
import TypedWire.Descriptor.Error
import TypedWire.Descriptor.Stream
import TypedWire.Inspect.Failure
import TypedWire.Inspect.Invocation
import TypedWire.Inspect.Session
import TypedWire.Inspect.Settings
import TypedWire.Integer
import TypedWire.Json.Basic
import TypedWire.Json.Number
import TypedWire.Json.Parse
import TypedWire.Json.Print
import TypedWire.Json.Token
import TypedWire.Main
import TypedWire.Proofs.Binding.Agree
import TypedWire.Proofs.Binding.Binds
import TypedWire.Proofs.Binding.Build
import TypedWire.Proofs.Binding.Dialects
import TypedWire.Proofs.Binding.Infers
import TypedWire.Proofs.Binding.Located
import TypedWire.Proofs.Binding.Parts
import TypedWire.Proofs.Binding.Ranges
import TypedWire.Proofs.Binding.Suggested
import TypedWire.Proofs.Binding.Valued
import TypedWire.Proofs.Cache.History
import TypedWire.Proofs.Calendar.Exact
import TypedWire.Proofs.Calendar.Wire
import TypedWire.Proofs.Codec.Canonical
import TypedWire.Proofs.Codec.Content
import TypedWire.Proofs.Codec.Covers
import TypedWire.Proofs.Codec.Delimited
import TypedWire.Proofs.Codec.Entries
import TypedWire.Proofs.Codec.Failure
import TypedWire.Proofs.Codec.Frame
import TypedWire.Proofs.Codec.Growth
import TypedWire.Proofs.Codec.Into
import TypedWire.Proofs.Codec.Inverse
import TypedWire.Proofs.Codec.Kept
import TypedWire.Proofs.Codec.Meets
import TypedWire.Proofs.Codec.Normal
import TypedWire.Proofs.Codec.Payload
import TypedWire.Proofs.Codec.Reencode
import TypedWire.Proofs.Codec.Returned
import TypedWire.Proofs.Codec.Rewrites
import TypedWire.Proofs.Codec.RoundTrip
import TypedWire.Proofs.Codec.Scalar
import TypedWire.Proofs.Codec.Sent
import TypedWire.Proofs.Codec.Size
import TypedWire.Proofs.Codec.Soundness
import TypedWire.Proofs.Codec.Stores
import TypedWire.Proofs.Codec.Takes
import TypedWire.Proofs.Descriptor.Formed
import TypedWire.Proofs.Descriptor.Grammar
import TypedWire.Proofs.Descriptor.Indexable
import TypedWire.Proofs.Descriptor.Parse
import TypedWire.Proofs.Descriptor.Reads
import TypedWire.Proofs.Descriptor.Truncated
import TypedWire.Proofs.Outcome
import TypedWire.Proofs.Render.Conforms
import TypedWire.Proofs.Render.Encodes
import TypedWire.Proofs.Render.RoundTrip
import TypedWire.Proofs.Shape.Conforms
import TypedWire.Proofs.Shape.Leaf
import TypedWire.Proofs.Shape.Resolve
import TypedWire.Proofs.Text.Hex
import TypedWire.Proofs.Wire.Agree
import TypedWire.Proofs.Wire.Atomic
import TypedWire.Proofs.Wire.Delimited
import TypedWire.Proofs.Wire.Follows
import TypedWire.Proofs.Wire.Mirror
import TypedWire.Proofs.Wire.Reads
import TypedWire.Proofs.Wire.Refuses
import TypedWire.Proofs.Wire.Regions
import TypedWire.Proofs.Wire.Segments
import TypedWire.Proofs.Wire.Weighs
import TypedWire.Proofs.Wire.Writes
import TypedWire.Render.FromJson
import TypedWire.Render.ToJson
import TypedWire.Scalar
import TypedWire.Shape
import TypedWire.Text.Blank
import TypedWire.Text.Hex
import TypedWire.Text.Quoted
import TypedWire.Text.Scan
import TypedWire.Text.Utf8
import TypedWire.Text.Visible
import TypedWire.Toml.Basic
import TypedWire.Toml.Document
import TypedWire.Toml.Scan
import TypedWire.Uuid
import TypedWire.Value
import TypedWire.Wire.Error
import TypedWire.Wire.Item
import TypedWire.Wire.Pull
import TypedWire.Wire.Reader
import TypedWire.Wire.Writer
