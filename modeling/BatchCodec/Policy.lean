import BatchCodec.Direction
/-!
The continuation policy: whether the rest of a batch is converted after the codec has rejected a
file, for each direction. Left alone, compiling goes on and decompiling stops.

Functions of the program: `ContinuationPolicy` with `default` (`Policy.default`), `continue_on_error`
(`PerDirection.get`) and `set` (`PerDirection.set`).
-/

namespace BatchCodec

/-- Whether a batch goes on after a rejected file, for each direction. -/
abbrev Policy := PerDirection Bool

def Policy.default : Policy := ⟨true, false⟩

end BatchCodec
