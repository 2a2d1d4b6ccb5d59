import Wager.Chain.Draft
import Wager.Chain.Grammar
import Wager.Chain.Ledger
import Wager.Chain.Machine
import Wager.Chain.Opcode
import Wager.Chain.OutPoint
import Wager.Chain.RelativeLock
import Wager.Chain.Script
import Wager.Chain.ScriptNumber
import Wager.Chain.Transaction
import Wager.Checked
import Wager.Contract.Inscription
import Wager.Contract.Promise
import Wager.Contract.Scripts
import Wager.Contract.Settlement
import Wager.Crypto.Curve
import Wager.Crypto.Digest
import Wager.Crypto.Ripemd160
import Wager.Crypto.Sha256
import Wager.Crypto.Signature
import Wager.Fault
import Wager.Keys.Address
import Wager.Keys.Network
import Wager.Keys.PrivateKey
import Wager.Keys.PublicKey
import Wager.Peer.Channel
import Wager.Peer.Mailbox
import Wager.Peer.Negotiation
import Wager.Proofs.Accounts
import Wager.Proofs.Assembly
import Wager.Proofs.Bets
import Wager.Proofs.Bindings
import Wager.Proofs.Candidates
import Wager.Proofs.Charges
import Wager.Proofs.Checks
import Wager.Proofs.Claims
import Wager.Proofs.Commitments
import Wager.Proofs.Committees
import Wager.Proofs.Conditions
import Wager.Proofs.ContractScripts
import Wager.Proofs.Digests
import Wager.Proofs.Drafts
import Wager.Proofs.ExactFees
import Wager.Proofs.Faults
import Wager.Proofs.FieldPrime
import Wager.Proofs.Fragments
import Wager.Proofs.Inscriptions
import Wager.Proofs.KeyTexts
import Wager.Proofs.Numerals
import Wager.Proofs.Oversize
import Wager.Proofs.Parsing
import Wager.Proofs.Paths
import Wager.Proofs.Payouts
import Wager.Proofs.Plans
import Wager.Proofs.Promises
import Wager.Proofs.PublicKeys
import Wager.Proofs.Reading
import Wager.Proofs.Recovery
import Wager.Proofs.Refusals
import Wager.Proofs.RemoteSigning
import Wager.Proofs.Requests
import Wager.Proofs.Reveals
import Wager.Proofs.Roles
import Wager.Proofs.ScriptNumbers
import Wager.Proofs.Searches
import Wager.Proofs.Seats
import Wager.Proofs.Selections
import Wager.Proofs.Sessions
import Wager.Proofs.Shares
import Wager.Proofs.ShortestNumbers
import Wager.Proofs.Signatures
import Wager.Proofs.SignedBytes
import Wager.Proofs.Signing
import Wager.Proofs.Spellings
import Wager.Proofs.Spendable
import Wager.Proofs.Spends
import Wager.Proofs.Splits
import Wager.Proofs.Success
import Wager.Proofs.Sums
import Wager.Proofs.Takings
import Wager.Proofs.Templates
import Wager.Proofs.Texts
import Wager.Proofs.Thresholds
import Wager.Proofs.Ties
import Wager.Proofs.Timeouts
import Wager.Proofs.Tokens
import Wager.Proofs.Tolerance
import Wager.Proofs.Transactions
import Wager.Proofs.Verification
import Wager.Proofs.Votes
import Wager.Proofs.Windows
import Wager.Proofs.Winning
import Wager.Spend.Acceptance
import Wager.Spend.Fee
import Wager.Spend.Signer
import Wager.Spend.Unlock
import Wager.Terms.Bet
import Wager.Terms.Commitment
import Wager.Terms.Config
import Wager.Terms.JsonForm
import Wager.Terms.Openings
import Wager.Terms.Player
import Wager.Terms.Seat
import Wager.Terms.TimeUnit
import Wager.Text.Base58
import Wager.Text.Hex
import Wager.Text.Json
import Wager.Text.Quoted
import Wager.Text.Unprintable
import Wager.Text.Utf8
import Wager.Wire.Bytes
import Wager.Wire.Decoder
import Wager.Wire.Encode
import Wager.Wire.InPlace
import Wager.Wire.Item
