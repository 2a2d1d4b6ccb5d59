import Wager.Chain.OutPoint
import Wager.Text.Quoted
import Wager.Text.Utf8
import Wager.Terms.Player
import Wager.Terms.TimeUnit

/-!
# Faults

Every operation that can fail gives a `Fault`: one of seven kinds, with a cause of its own type.

- `malformed`: data that is not in the required form, or a number that does not fit.
- `insufficientFunds`: values that do not cover what they have to.
- `inconsistent`: well-formed data that contradicts the terms.
- `unrecovered`: no timeout within the search bounds gives the committed script.
- `signing`, `collaborator`, `configuration`: the signer, the outside world or the settings.

The wording of a cause is in its `message` and nowhere else.
-/

namespace Wager

/-! ## Malformed data -/

/-- A sum that has to fit 64 bits. -/
inductive Total
  | outputs
  | oracleShare
  | oraclePayments
  | stake
  | funding
  | inscription
  | claims
deriving DecidableEq, Repr

def Total.message : Total → String
  | .outputs => "output values overflow"
  | .oracleShare => "oracle amounts overflow"
  | .oraclePayments => "oracle payments overflow"
  | .stake => "stake overflows"
  | .funding => "funding total overflows"
  | .inscription => "inscription inputs overflow"
  | .claims => "claimed value overflows"

inductive Malformed
  -- bytes
  | unexpectedEnd (wanted offset left : Nat)
  | lengthBeyond (declared : UInt64) (left : Nat)
  | trailing (left offset : Nat)
  | blockLength (expected got : Nat)
  -- text
  | hexLength (length : Nat)
  | hexDigit (byte : UInt8) (position : Nat)
  | base58Character (character : Char) (position : Nat)
  | base58NonAscii (position : Nat)
  | checksumMissing
  | checksumMismatch
  -- keys and addresses
  | networkTag (tag : UInt8)
  | publicKeyLength (length : Nat)
  | publicKey
  | compressedLength (length : Nat)
  | compressedKey
  | uncompressedLength (length : Nat)
  | uncompressedKey
  | privateKeyLength (length : Nat)
  | privateKey
  | wifVersion (version : UInt8)
  | wifFlag (flag : UInt8)
  | wifLength (length : Nat)
  | addressLength (length : Nat)
  | addressVersion (version : UInt8)
  -- scripts
  | oversizedPush (size : Nat)
  | unknownOpcode (code : UInt8) (offset : Nat)
  | multisigThreshold (keys required : Nat)
  | multisigKeys (keys : Nat)
  | relativeTimeout (seconds : UInt32)
  -- transactions
  | witness
  | overflow (total : Total)
  | noInput (index : Nat)
  | signedInput (index inputs : Nat)
  | feeOverflow (rate : UInt64) (size : Nat)
  -- terms
  | noParty
  | badParty (party : String)
  | channelText (cause : Utf8Fault)
  | channelType (tag : UInt8)
  | timeUnit (tag : UInt8)
  | timeoutOverflow (value : UInt32) (unit : TimeUnit)
  | betMagic
  | descriptionText (cause : Utf8Fault)
  | commitmentMagic
  | noCommitment
  | inscribedHashes (length : Nat)
  -- the protocol
  | seat (position : Nat)
  | seatOf (position seats : Nat)
  | replyOverflow (resolution : UInt32)
  | noDestination
  | signRequestInput (index : Nat)
deriving DecidableEq, Repr

def Malformed.message : Malformed → String
  | .unexpectedEnd wanted offset left =>
    s!"unexpected end of data: wanted {wanted} bytes at offset {offset}, {left} left"
  | .lengthBeyond declared left =>
    s!"declared length {declared.toNat} exceeds remaining {left} bytes"
  | .trailing left offset => s!"{left} trailing bytes after offset {offset}"
  | .blockLength expected got => s!"expected {expected} bytes, got {got}"
  | .hexLength length => s!"hex string has odd length {length}"
  | .hexDigit byte position =>
    "invalid hex: Invalid character " ++ quoteChar (Char.ofNat byte.toNat) ++
      s!" at position {position}"
  | .base58Character character position =>
    "invalid base58: provided string contained invalid character " ++ quoteChar character ++
      s!" at byte {position}"
  | .base58NonAscii position =>
    "invalid base58: provided string contained non-ascii character starting at byte " ++
      s!"{position}"
  | .checksumMissing => "base58check data shorter than checksum"
  | .checksumMismatch => "base58check checksum mismatch"
  | .networkTag tag => s!"unknown network tag {tag.toNat}"
  | .publicKeyLength length => s!"unsupported public key length {length}"
  | .publicKey => "invalid public key: malformed public key"
  | .compressedLength length => s!"compressed public key must be 33 bytes, got {length}"
  | .compressedKey => "invalid compressed key: malformed public key"
  | .uncompressedLength length => s!"uncompressed public key must be 65 bytes, got {length}"
  | .uncompressedKey => "invalid uncompressed key: malformed public key"
  | .privateKeyLength length => s!"private key must be 32 bytes, got {length}"
  | .privateKey => "invalid private key scalar: malformed or out-of-range secret key"
  | .wifVersion version => "unknown WIF version " ++ byteText version
  | .wifFlag flag => "invalid WIF compression flag " ++ byteText flag
  | .wifLength length => s!"invalid WIF length {length}"
  | .addressLength length => s!"address payload must be 21 bytes, got {length}"
  | .addressVersion version => "unknown address version " ++ byteText version
  | .oversizedPush size => s!"push of {size} bytes exceeds the 520 byte element limit"
  | .unknownOpcode code offset =>
    "unknown opcode " ++ byteText code ++ s!" at offset {offset}"
  | .multisigThreshold keys required =>
    s!"multisig requires 1..={keys} signatures, got {required}"
  | .multisigKeys keys => s!"bare multisig supports at most 16 keys, got {keys}"
  | .relativeTimeout seconds =>
    s!"relative timeout of {seconds.toNat} seconds exceeds the 65535 unit limit"
  | .witness => "witness serialization is not supported"
  | .overflow total => total.message
  | .noInput index => s!"input index {index} out of range"
  | .signedInput index inputs =>
    s!"cannot sign input {index} of a transaction with {inputs} inputs"
  | .feeOverflow rate size => s!"fee rate {rate.toNat} overflows for {size} bytes"
  | .noParty => "channel needs at least one party"
  | .badParty party => "invalid channel party " ++ quoteText party
  | .channelText cause => "channel payload is not UTF-8: " ++ cause.message
  | .channelType tag => "unknown channel type " ++ byteText tag
  | .timeUnit tag => s!"unknown time unit {tag.toNat}"
  | .timeoutOverflow value unit => s!"timeout {value.toNat} {unit.name} overflows"
  | .betMagic => "bet encoding has the wrong magic"
  | .descriptionText cause => "bet description is not UTF-8: " ++ cause.message
  | .commitmentMagic => "commitment has the wrong magic"
  | .noCommitment => "not an OP_RETURN commitment"
  | .inscribedHashes length =>
    s!"inscription commitment carries {length} hash bytes, expected 40"
  | .seat position => s!"committee position {position} out of range"
  | .seatOf position seats => s!"committee position {position} out of range for {seats} oracles"
  | .replyOverflow resolution => s!"reply timeout overflows for {resolution.toNat}s"
  | .noDestination => "no destination to pay"
  | .signRequestInput index => s!"sign request for missing input {index}"

/-! ## Contradictions -/

/-- An output that is locked by one of the bet's scripts. -/
inductive Lock
  | prize (owner : Player)
  | answer (position : Nat)
  | insurance (position : Nat)
deriving DecidableEq, Repr

def Lock.label : Lock → String
  | .prize owner => "prize of player " ++ owner.text
  | .answer position => s!"answer of oracle {position}"
  | .insurance position => s!"insurance of oracle {position}"

inductive Inconsistency
  -- transactions
  | notScriptHash (script : Bytes)
  | missingOutput (txid : Txid) (index : Nat)
  | lockedInput (index : Nat)
  | unlockCount (unlocks inputs : Nat)
  | signerCount (signers : Nat)
  | undistributed (outputs inputs : UInt64)
  | unaccounted (outputs fee inputs : UInt64)
  | noFeeOutput
  -- terms
  | oracleBounds (least most : UInt64)
  | requiredHashes (required least : UInt64)
  | samePlayers
  | tooFewCandidates (candidates : Nat) (least : UInt64)
  | committeeSize (size : Nat) (least most : UInt64)
  | notCandidate (oracle : String)
  | seatedTwice (oracle : String)
  | playerOracle
  | stranger (key : Bytes)
  -- commitments and preimages
  | commitmentCount (commitments slots : Nat)
  | strayPreimage (oracle : String)
  | notInscribed
  | inscriptionMagic
  | oversizedScript (lock : Lock) (size seats : Nat)
  -- the promise
  | fundingSigner (player : Player)
  | fundingScript (outpoint : OutPoint) (player : Player)
  | otherTerms
  | prizeMismatch (player : Player)
  | paymentMismatch (position : Nat)
  -- the inscription
  | otherSeat (oracle : String) (position : Nat)
  | belowNominal (resolution reply nominalResolution nominalReply : UInt32)
  | replyTooEarly
  | otherSigners
  | promiseOutput (position : Nat)
  | oracleFunding
  | inexactFee
  -- the resolution
  | otherHashes (position : Nat)
  | notSeated
  | signerOrder
  | unanswered (position : Nat)
  | notAnnounced (position : Nat) (player : Player)
  | otherPreimage (player : Player) (position : Nat)
  | slotCount (slots seats : Nat)
  | tooFewMatches (count : Nat) (player : Player) (required : UInt64)
deriving DecidableEq

def Inconsistency.message : Inconsistency → String
  | .notScriptHash script => "expected a pay-to-script-hash output, found " ++ hexText script
  | .missingOutput txid index => s!"transaction {txid.text} has no output {index}"
  | .lockedInput index => s!"input {index} has no unlocking script"
  | .unlockCount unlocks inputs => s!"{unlocks} unlocks supplied for {inputs} inputs"
  | .signerCount signers =>
    s!"pay-to-pubkey-hash input needs exactly one signer, got {signers}"
  | .undistributed outputs inputs =>
    s!"outputs distribute {outputs.toNat} of {inputs.toNat} spent"
  | .unaccounted outputs fee inputs =>
    s!"outputs {outputs.toNat} plus fee {fee.toNat} do not account for inputs {inputs.toNat}"
  | .noFeeOutput => "no output left to pay the fee"
  | .oracleBounds least most => s!"invalid oracle bounds {least.toNat}..={most.toNat}"
  | .requiredHashes required least =>
    s!"required hashes {required.toNat} must lie in 1..={least.toNat}"
  | .samePlayers => "both players use the same key"
  | .tooFewCandidates candidates least =>
    s!"{candidates} candidate oracles cannot fill a committee of {least.toNat}"
  | .committeeSize size least most =>
    s!"committee of {size} is outside {least.toNat}..={most.toNat}"
  | .notCandidate oracle => s!"committee member {oracle} is not a candidate"
  | .seatedTwice oracle => s!"committee member {oracle} appears twice"
  | .playerOracle => "a player cannot serve as oracle"
  | .stranger key => s!"key {hexText key} belongs to neither player"
  | .commitmentCount commitments slots =>
    s!"{commitments} commitments for a committee of {slots}"
  | .strayPreimage oracle => s!"preimage does not match either hash of oracle {oracle}"
  | .notInscribed => "inscription has no commitment output"
  | .inscriptionMagic => "inscription commitment has the wrong magic"
  | .oversizedScript lock size seats =>
    lock.label ++ s!" redeem script is {size} bytes, above the 520 byte push limit; " ++
      s!"a committee of {seats} cannot be spent"
  | .fundingSigner player =>
    s!"signer for player {player.text} does not hold the declared key"
  | .fundingScript outpoint player =>
    s!"funding {outpoint.text} of player {player.text} is not payable by its key"
  | .otherTerms => "promise commits to different terms"
  | .prizeMismatch player => s!"prize of player {player.text} does not match"
  | .paymentMismatch position => s!"payment of oracle {position} does not match"
  | .otherSeat oracle position =>
    s!"oracle {oracle} does not hold committee seat {position}"
  | .belowNominal resolution reply nominalResolution nominalReply =>
    s!"timeouts ({resolution.toNat}s, {reply.toNat}s) are below the nominal " ++
      s!"({nominalResolution.toNat}s, {nominalReply.toNat}s)"
  | .replyTooEarly => "reply deadline must follow resolution"
  | .otherSigners => "player signers do not match the bet"
  | .promiseOutput position =>
    s!"promise output for oracle {position} does not match the bet"
  | .oracleFunding => "funding is not payable by the oracle key"
  | .inexactFee => "inscription does not pay exactly its fee"
  | .otherHashes position =>
    s!"inscription of oracle {position} commits to different hashes"
  | .notSeated => "oracle does not hold this committee seat"
  | .signerOrder => "signers must be player A then player B"
  | .unanswered position => s!"oracle {position} has not answered"
  | .notAnnounced position player =>
    s!"oracle {position} did not announce player {player.text}"
  | .otherPreimage player position =>
    s!"preimage for player {player.text} does not open oracle {position}'s hash"
  | .slotCount slots seats => s!"{slots} preimage slots for a committee of {seats}"
  | .tooFewMatches count player required =>
    s!"{count} preimages announce player {player.text}, {required.toNat} required"

/-! ## The other kinds -/

/-- A search that ran through its bounds. -/
inductive Unrecovered
  | single (label : String) (bound nominal : UInt32)
  | pair (label : String) (bound first second : UInt32)
deriving DecidableEq, Repr

def Unrecovered.message : Unrecovered → String
  | .single label bound nominal =>
    s!"no {label} script within {bound.toNat} steps of {nominal.toNat}s matches the committed hash"
  | .pair label bound first second =>
    s!"no {label} script within {bound.toNat}x{bound.toNat} steps of " ++
      s!"({first.toNat}, {second.toNat})s matches the committed hash"

inductive Unsigned
  | declined (index : Nat)
  | invalid (index : Nat)
deriving DecidableEq, Repr

def Unsigned.message : Unsigned → String
  | .declined index => s!"peer declined to sign input {index}"
  | .invalid index => s!"peer signature for input {index} is invalid"

/-- A failure of the peer or the ledger. -/
inductive Outside
  | silent (topic : String)
  | unknownTransaction (txid : Txid)
  | otherTransaction (got wanted : Txid)
  | reported (text : String)
deriving DecidableEq

def Outside.message : Outside → String
  | .silent topic => s!"timed out waiting for {topic}"
  | .unknownTransaction txid => s!"transaction {txid.text} not found"
  | .otherTransaction got wanted => s!"ledger returned {got.text} for {wanted.text}"
  | .reported text => text

inductive Misconfigured
  | unreadable (path reason : String)
  | notConfiguration
  | searchBounds
  | replyFactor (factor : UInt32)
deriving DecidableEq, Repr

def Misconfigured.message : Misconfigured → String
  | .unreadable path reason => s!"cannot read {path}: {reason}"
  | .notConfiguration => "invalid configuration"
  | .searchBounds => "search bounds must be positive"
  | .replyFactor factor => s!"reply timeout factor must be at least 2, got {factor.toNat}"

inductive Fault
  | malformed (cause : Malformed)
  | insufficientFunds (required available : UInt64)
  | inconsistent (cause : Inconsistency)
  | unrecovered (cause : Unrecovered)
  | signing (cause : Unsigned)
  | collaborator (cause : Outside)
  | configuration (cause : Misconfigured)
deriving DecidableEq

/-- The whole text of a fault, its kind first. -/
def Fault.message : Fault → String
  | .malformed cause => "Malformed input: " ++ cause.message
  | .insufficientFunds required available =>
    s!"Insufficient funds: required {required.toNat} sats, available {available.toNat} sats"
  | .inconsistent cause => "Protocol inconsistency: " ++ cause.message
  | .unrecovered cause => "Script reconstruction failed: " ++ cause.message
  | .signing cause => "Signing failed: " ++ cause.message
  | .collaborator cause => "Collaborator failure: " ++ cause.message
  | .configuration cause => "Configuration error: " ++ cause.message

/-- A result, or the fault that stood in its way. -/
abbrev Outcome (α : Type) := Except Fault α

/-- Fails as malformed. -/
def malformed {α : Type} (cause : Malformed) : Outcome α := .error (.malformed cause)

/-- Fails as inconsistent. -/
def inconsistent {α : Type} (cause : Inconsistency) : Outcome α := .error (.inconsistent cause)

/-- The value, or the fault for having none. -/
def need {α : Type} (fault : Fault) : Option α → Outcome α
  | some a => .ok a
  | none => .error fault

end Wager
