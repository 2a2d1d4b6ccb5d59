import Wager.Chain.OutPoint
import Wager.Terms.Config
import Wager.Text.Json

/-!
# JSON forms

How the values of the terms stand in JSON. A record lists its fields in a fixed order and a
choice is its name; a transaction id is an array of its bytes. Fields of the configuration may be
left out, all others may not.

Nothing is checked here beyond the form. `Config.parse` also checks the configuration.
-/

namespace Wager

namespace Json

def u8? (j : Json) : Option UInt8 := (j.nat? UInt8.size).map UInt8.ofNat

def u32? (j : Json) : Option UInt32 := (j.nat? UInt32.size).map UInt32.ofNat

def u64? (j : Json) : Option UInt64 := (j.nat? UInt64.size).map UInt64.ofNat

/-- A field that may be left out. -/
def orDefault {α : Type} (read : Json → Option α) (default : α) : Option Json → Option α
  | some j => read j
  | none => some default

/-- The name of a value among the choices. -/
def nameOf {α : Type} [DecidableEq α] (choices : List (String × α)) (a : α) : Json :=
  text ((choices.find? (·.2 = a)).elim "" (·.1))

end Json

/-! ## Choices -/

def Network.choices : List (String × Network) := [("mainnet", .mainnet), ("testnet", .testnet)]

def Network.ofJson? : Json → Option Network := Json.choice? choices

def Network.toJson : Network → Json := Json.nameOf choices

def Player.choices : List (String × Player) := [("A", .A), ("B", .B)]

def Player.ofJson? : Json → Option Player := Json.choice? choices

def Player.toJson : Player → Json := Json.nameOf choices

def TimeUnit.choices : List (String × TimeUnit) :=
  [("seconds", .seconds), ("minutes", .minutes), ("hours", .hours), ("days", .days)]

def TimeUnit.ofJson? : Json → Option TimeUnit := Json.choice? choices

def TimeUnit.toJson : TimeUnit → Json := Json.nameOf choices

/-! ## Records -/

def Timeout.ofJson? (j : Json) : Option Timeout := do
  match ← j.fields? ["unit", "value"] with
  | [some unit, some value] => return ⟨← TimeUnit.ofJson? unit, ← value.u32?⟩
  | _ => none

def Timeout.toJson (t : Timeout) : Json :=
  .record [("unit", t.unit.toJson), ("value", .nat t.value.toNat)]

def Amounts.fields : List String :=
  ["first_payment", "oracle_payment", "pot_amount", "inscription_fee", "penalty", "fee_rate"]

def Amounts.ofJson? (j : Json) : Option Amounts := do
  match ← (← j.fields? fields).mapM (·.bind Json.u64?) with
  | [firstPayment, oraclePayment, pot, inscriptionFee, penalty, feeRate] =>
    return ⟨firstPayment, oraclePayment, pot, inscriptionFee, penalty, feeRate⟩
  | _ => none

def Amounts.toJson (a : Amounts) : Json :=
  .record (fields.zip (a.toList.map fun v => .nat v.toNat))

def Channel.ofJson? : Json → Option Channel
  | .object [(some "Secure", content)] => do
    match ← content.fields? ["parties"] with
    | [some parties] => return ⟨← (← parties.items).mapM Json.text?⟩
    | _ => none
  | _ => none

def Channel.toJson (c : Channel) : Json :=
  .record [("Secure", .record [("parties", .array (c.parties.map .text))])]

def Txid.ofJson? (j : Json) : Option Txid := do
  return ⟨← block? 32 (← (← j.items).mapM Json.u8?)⟩

def Txid.toJson (id : Txid) : Json := .array (id.shown.toList.map fun b => .nat b.toNat)

def OutPoint.ofJson? (j : Json) : Option OutPoint := do
  match ← j.fields? ["txid", "index"] with
  | [some txid, some index] => return ⟨← Txid.ofJson? txid, ← index.u32?⟩
  | _ => none

def OutPoint.toJson (o : OutPoint) : Json :=
  .record [("txid", o.txid.toJson), ("index", .nat o.index.toNat)]

def SearchBounds.ofJson? (j : Json) : Option SearchBounds := do
  let default : SearchBounds := {}
  match ← j.fields? ["single", "pair"] with
  | [single, pair] =>
    return ⟨← Json.orDefault Json.u32? default.single single,
      ← Json.orDefault Json.u32? default.pair pair⟩
  | _ => none

def SearchBounds.toJson (s : SearchBounds) : Json :=
  .record [("single", .nat s.single.toNat), ("pair", .nat s.pair.toNat)]

namespace Config

def ofJson? (j : Json) : Option Config := do
  let default : Config := {}
  match ← j.fields? ["network", "search", "reply_timeout_factor"] with
  | [network, search, replyFactor] =>
    return ⟨← Json.orDefault Network.ofJson? default.network network,
      ← Json.orDefault SearchBounds.ofJson? default.search search,
      ← Json.orDefault Json.u32? default.replyFactor replyFactor⟩
  | _ => none

def toJson (c : Config) : Json :=
  .record [("network", c.network.toJson), ("search", c.search.toJson),
    ("reply_timeout_factor", .nat c.replyFactor.toNat)]

/-- The configuration that a text describes, if it passes the checks. -/
def parse (text : String) : Outcome Config := do
  let config ← need (.configuration .notConfiguration) ((Json.parse? text).bind ofJson?)
  config.check
  return config

/-- The configuration in a file, given what reading the file came to: its text, or the reason why
there is none. -/
def load (path : String) : Except String String → Outcome Config
  | .ok text => parse text
  | .error reason => .error (.configuration (.unreadable path reason))

end Config

end Wager
