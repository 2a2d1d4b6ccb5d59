import Wager.Chain.Draft
import Wager.Keys.PrivateKey
import Wager.Peer.Channel

/-!
# Signers

**An input signature** is a DER signature followed by the hash type byte, which always says that
everything is signed.

**A signer** stands for one public key: it holds the private key, or asks the peer that does over
a link. A signature that comes over the link is verified before it is used.
-/

namespace Wager

/-- The hash type of a signature over all inputs and outputs. -/
def sighashAll : UInt8 := 1

/-- Signs one input of a draft. -/
def PrivateKey.signInput (k : PrivateKey) (d : Draft) (index : Nat) (code : Script) :
    Outcome Bytes := do
  return k.sign (← d.digest index code sighashAll) ++ [sighashAll]

/-- Whether a signature signs an input of a draft. -/
def PublicKey.verifyInput (k : PublicKey) (d : Draft) (index : Nat) (code : Script)
    (signature : Bytes) : Outcome Bool :=
  if signature.getLast? = some sighashAll then
    (k.verify · signature.dropLast) <$> d.digest index code sighashAll
  else .ok false

/-! ## Requests to sign -/

/-- What a peer is asked to sign. -/
structure SignRequest where
  draft : Draft
  index : Nat
  code : Script
deriving DecidableEq

namespace SignRequest

def encode (r : SignRequest) : Bytes :=
  Encode.sized r.draft.encode ++ (Encode.u32 (UInt32.ofNat r.index) ++ r.code.encode)

def decoder : Decoder SignRequest := do
  let draft ← Draft.decode (← Decoder.sized)
  let index ← Decoder.u32
  return ⟨draft, index.toNat, ← Script.decoder⟩

/-- Reads a request, which must be for an input that is there. -/
def decode (data : Bytes) : Outcome SignRequest := do
  let request ← decoder.decodeAll data
  if request.index < request.draft.inputs.length then return request
  else malformed (.signRequestInput request.index)

end SignRequest

/-! ## Signers -/

inductive Signer (σ : Type)
  | held (key : PrivateKey)
  | remote (peer : PublicKey) (link : Link σ)

namespace Signer

variable {σ : Type}

def publicKey : Signer σ → PublicKey
  | .held key => key.publicKey
  | .remote peer _ => peer

/-- A signature by the signer's key. -/
def sign (d : Draft) (index : Nat) (code : Script) : Signer σ → Exchange σ Bytes
  | .held key => key.signInput d index code
  | .remote peer link => do
    link.send .signRequest (SignRequest.encode ⟨d, index, code⟩)
    let signature ← link.expect .signature
    if signature.isEmpty then throw (.signing (.declined index))
    unless ← peer.verifyInput d index code signature do throw (.signing (.invalid index))
    return signature

end Signer

end Wager
