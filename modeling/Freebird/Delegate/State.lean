import Freebird.Common.Types

/-!
# The key-value delegate

A store on the user's own node, one flat space of keys. The delegate keeps the keys of an origin
under a prefix made of the origin.
-/

namespace Freebird

inductive FreebirdDelegateRequest where
  | store (key : String) (value : List U8)
  | get (key : String)
  | delete (key : String)
  | list
  deriving DecidableEq

inductive FreebirdDelegateResponse where
  | stored (key : String)
  | value (key : String) (value : Option (List U8))
  | deleted (key : String)
  | keyList (keys : List String)
  | error (message : String)
  deriving DecidableEq

/-- The seam between the delegate and its store. -/
class Kv (σ : Type) where
  get : σ → List U8 → Option (List U8)
  set : σ → List U8 → List U8 → Bool × σ
  remove : σ → List U8 → Bool × σ
  list : σ → List U8 → List (List U8)

instance : Std.TransOrd (List U8) := inferInstance

/-- The store in memory: a finite map, its keys in order. -/
abbrev MemKv := Map (List U8) (List U8)

instance : Kv MemKv where
  get kv key := kv[key]?
  set kv key value := (true, kv.insert key value)
  remove kv key := (key ∈ kv, kv.erase key)
  list kv pre := kv.keys.filter pre.isPrefixOf

/-- `String::from_utf8`. -/
def fromUtf8 (bytes : List U8) : Option String :=
  String.fromUTF8? ⟨(bytes.map fun b => UInt8.ofNat b.val).toArray⟩

/-- `str::strip_prefix`. -/
def stripPrefix (s pre : String) : Option String :=
  if pre.toList.isPrefixOf s.toList then some (String.ofList (s.toList.drop pre.toList.length))
  else none

def originSeparator : String := ":"

-- The encoder of origins comes from another crate.
variable (bs58 : List U8 → String)

def originPrefix (origin : List U8) : String := bs58 origin ++ originSeparator

variable {σ : Type} [Kv σ]

def handleRequest (kv : σ) (origin : List U8) (request : FreebirdDelegateRequest) :
    FreebirdDelegateResponse × σ :=
  let pre := originPrefix bs58 origin
  match request with
  | .store key value =>
    match Kv.set kv (utf8 (pre ++ key)) value with
    | (true, kv) => (.stored key, kv)
    | (false, kv) => (.error s!"failed to store {key}", kv)
  | .get key => (.value key (Kv.get kv (utf8 (pre ++ key))), kv)
  | .delete key => (.deleted key, (Kv.remove kv (utf8 (pre ++ key))).2)
  | .list =>
    let keys := (Kv.list kv (utf8 pre)).filterMap fun k => (fromUtf8 k).bind (stripPrefix · pre)
    (.keyList keys, kv)

/-- The log of a sequence of requests: who asked, and what the answer was. -/
def serve (kv : σ) : List (List U8 × FreebirdDelegateRequest) →
    List (List U8 × FreebirdDelegateResponse)
  | [] => []
  | (origin, request) :: requests =>
    let (response, kv) := handleRequest bs58 kv origin request
    (origin, response) :: serve kv requests

/-- The responses that an origin receives. -/
def received (origin : List U8) (log : List (List U8 × FreebirdDelegateResponse)) :
    List FreebirdDelegateResponse :=
  (log.filter fun entry => entry.1 = origin).map Prod.snd

end Freebird
