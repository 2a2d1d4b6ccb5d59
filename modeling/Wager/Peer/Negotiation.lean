import Wager.Spend.Signer
import Wager.Terms.Seat

/-!
# What the players exchange

Before the promise is funded the players agree over their channel on the bet, the seats of the
committee and each transaction, and sign inputs for each other. What is received is checked
before it is used.
-/

namespace Wager.Link

variable {σ : Type}

def sendBet (link : Link σ) (b : Bet) : Exchange σ Unit := do
  b.check
  link.send .bet b.encode

def receiveBet (link : Link σ) : Exchange σ Bet := do
  let b ← Bet.decode (← link.expect .bet)
  b.check
  return b

/-- The seats of a committee, behind their number. -/
def encodeSeats (committee : List Seat) : Bytes :=
  Encode.count committee.length ++ committee.flatMap Seat.encode

def decodeSeats (network : Network) (data : Bytes) : Outcome (List Seat) :=
  (Decoder.counted (Seat.decoder network)).decodeAll data

def sendSeats (link : Link σ) (committee : List Seat) : Exchange σ Unit :=
  link.send .commitments (encodeSeats committee)

def receiveSeats (link : Link σ) (b : Bet) : Exchange σ (List Seat) := do
  let committee ← decodeSeats b.network (← link.expect .commitments)
  b.checkSeats committee
  return committee

def sendTransaction (link : Link σ) (tx : Transaction) : Exchange σ Unit :=
  link.send .transaction tx.encode

def receiveTransaction (link : Link σ) : Exchange σ Transaction := do
  Transaction.decode (← link.expect .transaction)

/-- Serves one request to sign: with a signature, or with an empty one if it is not approved.
Tells which. -/
def answerSignRequest (link : Link σ) (signer : Signer σ) (approve : SignRequest → Bool) :
    Exchange σ Bool := do
  let request ← SignRequest.decode (← link.expect .signRequest)
  if approve request then
    link.send .signature (← signer.sign request.draft request.index request.code)
    return true
  else
    link.send .signature []
    return false

end Wager.Link
