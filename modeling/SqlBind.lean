import SqlBind.Bind.Stream
import SqlBind.Bind.Trace
import SqlBind.Derive
import SqlBind.Param.Describe
import SqlBind.UserTypes.Converted
import SqlBind.UserTypes.Unchecked
import SqlBind.Proofs.Bind.Appended
import SqlBind.Proofs.Bind.Client
import SqlBind.Proofs.Bind.Traced
import SqlBind.Proofs.Calendar.Rendering
import SqlBind.Proofs.Encode.Conversion
import SqlBind.Proofs.Encode.Derived
import SqlBind.Proofs.Encode.Extended
import SqlBind.Proofs.Encode.Negotiated
import SqlBind.Proofs.Encode.Nested
import SqlBind.Proofs.Encode.Passing
import SqlBind.Proofs.Encode.Regroup
import SqlBind.Proofs.Encode.Storage
import SqlBind.Proofs.Ieee.Comparison
import SqlBind.Proofs.Json.Meaning
import SqlBind.Proofs.Param.Calls
import SqlBind.Proofs.Shape.Translation
import SqlBind.Proofs.Wire.Decode
