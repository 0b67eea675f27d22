import OpenGda.Lib.FencedStore

set_option autoImplicit false

-- gicc::detail::BootstrapPMI2 of bootstrap_pmi2.hpp: collectives and pairwise
-- messages over the put, get and fence of PMI2. Keys and values are C strings.
namespace OpenGda.Pmi2

open FencedStore

abbrev Text := List Char
abbrev Blob := List UInt8

abbrev Pmi (Result : Type) := Prog Text Text String Result

-- Whether an implementation counts the trailing NUL of a value in vallen.
abbrev NulCounted := Nat → Text → Bool

def digits : Text := ['0', '1', '2', '3', '4', '5', '6', '7', '8', '9', 'a', 'b', 'c', 'd', 'e', 'f']

def nul : Char := Char.ofNat 0

def hexEncode (data : Blob) : Text :=
  data.flatMap fun (byte : UInt8) => [digits.getD ((byte >>> 4) &&& 0xF).toNat nul, digits.getD (byte &&& 0xF).toNat nul]

def hexNibble (c : Char) : Int :=
  if '0' ≤ c ∧ c ≤ '9' then c.toNat - '0'.toNat
  else if 'a' ≤ c ∧ c ≤ 'f' then 10 + (c.toNat - 'a'.toNat)
  else if 'A' ≤ c ∧ c ≤ 'F' then 10 + (c.toNat - 'A'.toNat)
  else -1

def hexPairs : Text → Except String Blob
  | high :: low :: rest =>
      let hi := hexNibble high
      let lo := hexNibble low
      if hi < 0 ∨ lo < 0 then .error "BootstrapPMI2: non-hex byte in blob"
      else (hexPairs rest).map (UInt8.ofNat ((hi.toNat <<< 4) ||| lo.toNat) :: ·)
  | _ => .ok []

def hexDecode (text : Text) : Except String Blob :=
  if text.length % 2 ≠ 0 then .error "BootstrapPMI2: odd-length hex blob" else hexPairs text

-- std::to_string
def toText : Int → Text
  | .ofNat n => Nat.toDigits 10 n
  | .negSucc n => '-' :: Nat.toDigits 10 (n + 1)

inductive Tag where
  | host
  | ag
  | bc
  | p2p
deriving DecidableEq, Repr

def Tag.text : Tag → Text
  | .host => ['h', 'o', 's', 't']
  | .ag => ['a', 'g']
  | .bc => ['b', 'c']
  | .p2p => ['p', '2', 'p']

def appendParts (parts : List Int) : Text := parts.flatMap fun part => '.' :: toText part

def kvsKey (tag : Tag) (parts : List Int) : Text := ['g', 'i', 'c', 'c', '.'] ++ tag.text ++ appendParts parts

def publishBlob (key : Text) (data : Blob) : Pmi Unit := .put key (hexEncode data) (.done ())

-- PMI2_KVS_Fence
def barrier : Pmi Unit := .fence (.done ())

-- PMI2_KVS_Get fills at most the buffer and reports the whole length.
def fillBuffer (buf value : Text) : Text :=
  (value ++ [nul]).take buf.length ++ buf.drop (value.length + 1)

def kvsGet (counted : NulCounted) (rank : Nat) (key buf : Text) : Pmi (Option (Text × Int)) :=
  .get key fun found => .done (found.map fun value =>
    (fillBuffer buf value, if counted rank key then value.length + 1 else value.length))

def trimNuls (buf : Text) : Nat → Nat
  | 0 => 0
  | hexLen + 1 => if buf.getD hexLen nul = nul then trimNuls buf hexLen else hexLen + 1

def fetchAttempts (counted : NulCounted) (rank : Nat) (key : Text) : Nat → Text → Pmi Blob
  | 0, _ => .throw ("BootstrapPMI2::fetch_blob: value for " ++ String.ofList key ++ " exceeds max buffer (4 MiB)")
  | attempts + 1, buf =>
      (kvsGet counted rank key buf).bind fun found =>
        match found with
        | none => .throw ("BootstrapPMI2::fetch_blob: KVS_Get(" ++ String.ofList key ++ ") failed")
        | some (buf, vallen) =>
            if vallen < 0 then .throw ("BootstrapPMI2::fetch_blob: negative vallen for " ++ String.ofList key)
            else if vallen < buf.length then
              match hexDecode (buf.take (trimNuls buf vallen.toNat)) with
              | .ok blob => .done blob
              | .error error => .throw error
            else fetchAttempts counted rank key attempts (buf ++ List.replicate (buf.length * 3) nul)

def fetchBlob (counted : NulCounted) (rank : Nat) (key : Text) : Pmi Blob :=
  fetchAttempts counted rank key 4 (List.replicate (16 * 1024) nul)

def fetchAll (counted : NulCounted) (rank : Nat) : List Text → Pmi (List Blob)
  | [] => .done []
  | key :: rest => do
      let blob ← fetchBlob counted rank key
      let blobs ← fetchAll counted rank rest
      return blob :: blobs

structure Bootstrap (size : Nat) where
  rank : Fin size
  collEpoch : Nat
  p2pSeq : Fin size → Fin size → Int → Nat

variable {size : Nat}

def construct (rank : Fin size) : Bootstrap size := ⟨rank, 0, fun _ _ _ => 0⟩

def nextCollEpoch (boot : Bootstrap size) : Bootstrap size := { boot with collEpoch := boot.collEpoch + 1 }

def nextP2pSeq (boot : Bootstrap size) (src dst : Fin size) (tag : Int) : Nat × Bootstrap size :=
  (boot.p2pSeq src dst tag,
    { boot with
      p2pSeq := fun src' dst' tag' =>
        if src' = src ∧ dst' = dst ∧ tag' = tag then boot.p2pSeq src dst tag + 1 else boot.p2pSeq src' dst' tag' })

def agKey (epoch : Nat) (rank : Fin size) : Text := kvsKey .ag [epoch, rank.val]
def bcKey (epoch : Nat) (root : Fin size) : Text := kvsKey .bc [epoch, root.val]
def p2pKey (seq : Nat) (src dst : Fin size) (tag : Int) : Text := kvsKey .p2p [seq, src.val, dst.val, tag]

def allgather (counted : NulCounted) (boot : Bootstrap size) (data : Blob) : Pmi (List Blob × Bootstrap size) := do
  let epoch := boot.collEpoch
  publishBlob (agKey epoch boot.rank) data
  barrier
  let out ← fetchAll counted boot.rank ((List.finRange size).map (agKey epoch))
  return (out, nextCollEpoch boot)

def allgatherFixed (counted : NulCounted) (boot : Bootstrap size) (value : Blob) : Pmi (List Blob × Bootstrap size) := do
  let raw ← allgather counted boot value
  if raw.1.all (·.length = value.length) then return raw
  else .throw "BootstrapPMI2::allgather_fixed: size mismatch"

def broadcast (counted : NulCounted) (boot : Bootstrap size) (value : Blob) (root : Fin size) :
    Pmi (Blob × Bootstrap size) := do
  let epoch := boot.collEpoch
  if boot.rank = root then publishBlob (bcKey epoch root) value else pure ()
  barrier
  if boot.rank = root then return (value, nextCollEpoch boot)
  else
    let blob ← fetchBlob counted boot.rank (bcKey epoch root)
    if blob.length = value.length then return (blob, nextCollEpoch boot)
    else .throw "BootstrapPMI2::broadcast: size mismatch"

def send (boot : Bootstrap size) (data : Blob) (dest : Fin size) (tag : Int) : Pmi (Bootstrap size) := do
  let (seq, boot') := nextP2pSeq boot boot.rank dest tag
  publishBlob (p2pKey seq boot.rank dest tag) data
  barrier
  return boot'

def recv (counted : NulCounted) (boot : Bootstrap size) (len : Nat) (src : Fin size) (tag : Int) :
    Pmi (Blob × Bootstrap size) := do
  barrier
  let (seq, boot') := nextP2pSeq boot src boot.rank tag
  let blob ← fetchBlob counted boot.rank (p2pKey seq src boot.rank tag)
  if blob.length = len then return (blob, boot') else .throw "BootstrapPMI2::recv: size mismatch"

def sendrecv (counted : NulCounted) (boot : Bootstrap size) (data : Blob) (peer : Fin size) (tag : Int) :
    Pmi (Blob × Bootstrap size) := do
  let (sendSeq, boot1) := nextP2pSeq boot boot.rank peer tag
  let (recvSeq, boot2) := nextP2pSeq boot1 peer boot.rank tag
  publishBlob (p2pKey sendSeq boot.rank peer tag) data
  barrier
  let blob ← fetchBlob counted boot.rank (p2pKey recvSeq peer boot.rank tag)
  if blob.length = data.length then return (blob, boot2)
  else .throw "BootstrapPMI2::sendrecv: size mismatch"

end OpenGda.Pmi2
