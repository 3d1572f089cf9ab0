import BatchCodec.Trace
/-!
Converters: whatever answers requests to convert one file.

The answer may depend on how many requests of the batch came before, so that every sequence of
answers is a converter; a converter that does not look at that number is stateless.

Functions of the program: `CodecGateway.convert` (`Converter.convert`), `CodecGateway.name`
(`Converter.name`).
-/

namespace BatchCodec

/-- The answer to one request, with what was recorded and started on the way. -/
structure Reply where
  result : Except Failure Unit
  records : List Record := []
  started : List (List String) := []

/-- A converter: a name for records, and a reply to the k-th request of a batch. -/
structure Converter where
  name : String
  convert : Nat → Request → Reply

namespace Converter

/-- A converter whose answer is a function of the request. -/
def stateless (name : String) (reply : Request → Reply) : Converter := ⟨name, fun _ => reply⟩

end Converter

end BatchCodec
