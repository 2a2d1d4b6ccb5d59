import Wager.Wire.Decoder
import Wager.Wire.Encode

/-!
# Channels

**The descriptor** names the parties that an authenticated and encrypted channel links. On the
wire it is a type byte and the party names, joined by a comma and a space. A name is therefore
not empty and does not hold that separator.

**The link** is what the protocol asks of a connection: messages are sent and received by topic.
-/

namespace Wager

structure Channel where
  parties : List String
deriving DecidableEq, Repr

namespace Channel

/-! ## The joined names -/

def separator : List Char := [',', ' ']

def hasSeparator : List Char → Bool
  | ',' :: ' ' :: _ => true
  | _ :: rest => hasSeparator rest
  | [] => false

/-- The pieces between separators. -/
def split : List Char → List (List Char)
  | ',' :: ' ' :: rest => [] :: split rest
  | c :: rest =>
    match split rest with
    | piece :: pieces => (c :: piece) :: pieces
    | [] => [[c]]
  | [] => [[]]

/-- The names, with a separator between any two. -/
def text (c : Channel) : String :=
  String.ofList (separator.intercalate (c.parties.map String.toList))

/-! ## The descriptor -/

/-- The channel between these parties, if their names can be joined and split again. -/
def secure (parties : List String) : Outcome Channel :=
  if parties.isEmpty then malformed .noParty
  else
    match parties.find? fun p => p.toList.isEmpty || hasSeparator p.toList with
    | some bad => malformed (.badParty bad)
    | none => .ok ⟨parties⟩

/-- The type byte of the only kind of channel. -/
def tag : UInt8 := 1

def encode (c : Channel) : Bytes := tag :: Encode.sized (Utf8.encode c.text)

def decoder : Decoder Channel := do
  let kind ← Decoder.u8
  let payload ← Decoder.sized
  if kind = tag then
    match Utf8.decode payload with
    | .ok text => secure ((split text.toList).map String.ofList)
    | .error cause => throw (.malformed (.channelText cause))
  else throw (.malformed (.channelType kind))

def decode (data : Bytes) : Outcome Channel := decoder.decodeAll data

end Channel

/-! ## The link -/

/-- What a message is about. -/
inductive Topic
  | bet
  | commitments
  | transaction
  | signRequest
  | signature
deriving DecidableEq, Repr

def Topic.name : Topic → String
  | .bet => "bet"
  | .commitments => "oracle-commitments"
  | .transaction => "transaction"
  | .signRequest => "sign-request"
  | .signature => "signature"

/-- A step that talks to the world `σ`, whose changes stay when the step fails. -/
abbrev Exchange (σ : Type) := ExceptT Fault (StateM σ)

/-- A connection to one peer in the world `σ`. Receiving gives nothing when no message came in
time. -/
structure Link (σ : Type) where
  send : Topic → Bytes → Exchange σ Unit
  receive : Topic → Exchange σ (Option Bytes)

/-- The next message on a topic, which must come. -/
def Link.expect {σ : Type} (link : Link σ) (topic : Topic) : Exchange σ Bytes := do
  match ← link.receive topic with
  | some message => return message
  | none => throw (.collaborator (.silent topic.name))

end Wager
