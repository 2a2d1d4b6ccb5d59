import Wager.Crypto.Curve
import Wager.Crypto.Digest

/-!
# Signatures

**Signing** is deterministic: the nonce is drawn from a generator keyed by the secret and the
digest (RFC 6979), and of the two values of `s` the lower one is taken.

**Verification** refuses the higher value of `s`, so a signature has one accepted form.

**The wire form** is strict DER: two minimal non-negative integers in a sequence, with nothing
around them.
-/

namespace Wager

structure Signature where
  r : Nat
  s : Nat
deriving DecidableEq, Repr

namespace Signature

open Curve

/-! ## DER -/

/-- Drops the leading zero bytes that a non-negative integer does not need. -/
def trimSign : Bytes → Bytes
  | 0 :: b :: rest => if b < 0x80 then trimSign (b :: rest) else 0 :: b :: rest
  | data => data

def derInteger (n : Nat) : Bytes :=
  let body := trimSign (bigEndian 33 n)
  0x02 :: UInt8.ofNat body.length :: body

def toDer (sig : Signature) : Bytes :=
  let body := derInteger sig.r ++ derInteger sig.s
  0x30 :: UInt8.ofNat body.length :: body

/-- Whether the bytes are a minimal non-negative integer. -/
def isMinimal : Bytes → Bool
  | [] => false
  | [a] => a < 0x80
  | a :: b :: _ => a < 0x80 && (a ≠ 0 || 0x80 ≤ b)

/-- Reads an integer below the group order. -/
def readInteger? : Bytes → Option (Nat × Bytes)
  | 0x02 :: size :: rest =>
    let body := rest.take size.toNat
    if size < 0x80 ∧ body.length = size.toNat ∧ isMinimal body ∧ ofBigEndian body < order then
      some (ofBigEndian body, rest.drop size.toNat)
    else none
  | _ => none

def ofDer? : Bytes → Option Signature
  | 0x30 :: size :: rest =>
    if rest.length = size.toNat ∧ size < 0x80 then do
      let (r, rest) ← readInteger? rest
      let (s, rest) ← readInteger? rest
      if rest = [] then some ⟨r, s⟩ else none
    else none
  | _ => none

/-! ## Nonces -/

/-- The state of the nonce generator. -/
structure Drbg where
  key : Bytes
  value : Bytes

namespace Drbg

def rekey (g : Drbg) (salt : Bytes) : Drbg :=
  let key := (hmacSha256 g.key (g.value ++ salt)).toList
  ⟨key, (hmacSha256 key g.value).toList⟩

def seed (material : Bytes) : Drbg :=
  ((⟨List.replicate 32 0, List.replicate 32 1⟩ : Drbg).rekey (0 :: material)).rekey
    (1 :: material)

/-- The next output, and the generator that gave it. -/
def next (g : Drbg) : Bytes × Drbg :=
  let value := (hmacSha256 g.key g.value).toList
  (value, ⟨g.key, value⟩)

end Drbg

/-! ## Signing and verifying -/

/-- The signature made with a given nonce. -/
def withNonce (secret digest nonce : Nat) : Signature :=
  let x := ((Jacobian.scale nonce .generator).affine?.map (·.1)).getD 0
  let r := x % order
  let s := invMod order nonce * ((digest + r * secret) % order) % order
  ⟨r, if order / 2 < s then order - s else s⟩

/-- Draws nonces until one gives a signature, at most `fuel` times. -/
def signFrom (secret digest : Nat) : (fuel : Nat) → Drbg → Signature
  | 0, _ => ⟨0, 0⟩
  | fuel + 1, g =>
    let (drawn, g) := g.next
    let nonce := ofBigEndian drawn
    let sig := withNonce secret digest nonce
    if nonce ≠ 0 ∧ nonce < order ∧ sig.r ≠ 0 ∧ sig.s ≠ 0 then sig
    else signFrom secret digest fuel (g.rekey [0])

/-- Signs a digest. A nonce is refused with a probability below `2⁻¹²⁷`, so the bound on the draws
is never met. -/
def sign (secret : Nat) (digest : Hash256) : Signature :=
  let m := ofBigEndian digest.toList % order
  signFrom secret m 64 (.seed (bigEndian 32 secret ++ bigEndian 32 m))

def verify (sig : Signature) (key : Point) (digest : Hash256) : Bool :=
  if sig.r = 0 ∨ sig.s = 0 ∨ order ≤ sig.r ∨ order / 2 < sig.s then false
  else
    let m := ofBigEndian digest.toList % order
    let w := invMod order sig.s
    let u := Jacobian.scale (m * w % order) .generator
    match (u.addMul 256 (sig.r * w % order) (.ofPoint key)).affine? with
    | none => false
    | some (x, _) => x % order = sig.r

end Signature

end Wager
