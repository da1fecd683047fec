import RecordCodec.Libraries.Decimals
import RecordCodec.Libraries.Toml.Document
import RecordCodec.Libraries.WebEncodings

/-!
The libraries that programs and samples run with.
-/
namespace RecordCodec

instance Libraries.standard : Libraries where
  decodeWeb? := WebEncoding.decode?
  encodeWeb? := WebEncoding.encode?
  decimals := Decimal.fractions
  toml? := Toml.document?

end RecordCodec
