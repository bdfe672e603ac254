import Freebird.Common.Bytes
import Freebird.Encoding.Base58

/-!
# Base 58

The client writes hashes, keys and addresses in base 58 and reads them back. Encoder and decoder come
from another crate (`bs58`) and are a parameter of the model, with what the client relies on.
-/

namespace Freebird

structure Bs58 where
  /-- `bs58::encode(..).into_string()` -/
  encode : List U8 → String
  /-- `bs58::decode(..).into_vec()` -/
  decode : String → Option (List U8)
  decode_encode (bytes : List U8) : decode (encode bytes) = some bytes
  /-- Nothing is accepted that the encoder would have written otherwise. -/
  encode_of_decode {text : String} {bytes : List U8} : decode text = some bytes → encode bytes = text
  slash_not_mem (bytes : List U8) : '/' ∉ (encode bytes).toList

namespace Bs58

variable (E : Bs58)

/-- No two byte strings are written alike. -/
theorem encode_injective : Function.Injective E.encode := by
  intro x y h
  have hdecode := E.decode_encode x
  rw [h, E.decode_encode y] at hdecode
  exact (Option.some.inj hdecode).symm

theorem decode_eq_some_iff {text : String} {bytes : List U8} :
    E.decode text = some bytes ↔ text = E.encode bytes :=
  ⟨fun h => (E.encode_of_decode h).symm, fun h => h ▸ E.decode_encode bytes⟩

end Bs58

namespace Sample

def bs58 : Bs58 where
  encode := Base58.encode
  decode := Base58.decode
  decode_encode := Base58.decode_encode
  encode_of_decode := Base58.decode_eq_some_iff.mp
  slash_not_mem _ h := absurd (Base58.mem_alphabet_of_mem_encode h) (by decide)

end Sample

end Freebird
