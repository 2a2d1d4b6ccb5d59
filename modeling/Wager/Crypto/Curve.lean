import Wager.Wire.Bytes

/-!
# The curve `y² = x³ + 7` over the prime field of secp256k1

**Points.** A `Point` is a finite point: its coordinates are reduced and satisfy the equation,
and both facts are part of the type. Points are read from coordinates or from an abscissa and
the parity of the ordinate.

**Arithmetic** runs on Jacobian triples `(X : Y : Z)`, standing for `(X / Z², Y / Z³)`, so that
a multiplication needs a single inversion. `Z = 0` is the point at infinity.
-/

namespace Wager.Curve

/-! ## The field -/

/-- The field prime. -/
def prime : Nat := 0xfffffffffffffffffffffffffffffffffffffffffffffffffffffffefffffc2f

/-- The number of points, which is prime too. -/
def order : Nat := 0xfffffffffffffffffffffffffffffffebaaedce6af48a03bbfd25e8cd0364141

/-- `b ^ e` modulo `m` by squaring, for an exponent of at most `bits` bits. -/
def powModBits (m : Nat) : (bits b e : Nat) → Nat
  | 0, _, _ => 1 % m
  | bits + 1, b, e =>
    let rest := powModBits m bits (b * b % m) (e / 2)
    if e % 2 = 1 then b * rest % m else rest

def powMod (m b e : Nat) : Nat := powModBits m (e.log2 + 1) (b % m) e

/-- The inverse modulo a prime. -/
def invMod (m a : Nat) : Nat := powMod m a (m - 2)

@[inline] def mul (a b : Nat) : Nat := a * b % prime

@[inline] def sub (a b : Nat) : Nat := (a + prime - b) % prime

/-- A square root of every square: `prime` is 3 modulo 4. -/
def sqrt (a : Nat) : Nat := powMod prime a ((prime + 1) / 4)

/-! ## Points -/

/-- A finite point of the curve. -/
structure Point where
  x : Nat
  y : Nat
  x_lt : x < prime
  y_lt : y < prime
  on_curve : y * y % prime = (x * x * x + 7) % prime
deriving DecidableEq

namespace Point

/-- The point with these coordinates, if there is one. -/
def ofCoordinates? (x y : Nat) : Option Point :=
  if h : x < prime ∧ y < prime ∧ y * y % prime = (x * x * x + 7) % prime then
    some ⟨x, y, h.1, h.2.1, h.2.2⟩
  else none

theorem ofCoordinates?_self (P : Point) : ofCoordinates? P.x P.y = some P := by
  simp [ofCoordinates?, P.x_lt, P.y_lt, P.on_curve]

def isOdd (P : Point) : Bool := P.y % 2 = 1

/-- The point with this abscissa whose ordinate has this parity. -/
def lift? (x : Nat) (odd : Bool) : Option Point :=
  let y := sqrt ((x * x * x + 7) % prime)
  ofCoordinates? x (if (y % 2 = 1 : Bool) = odd then y else prime - y)

/-- 33 bytes: the parity of the ordinate, then the abscissa. -/
def compressed (P : Point) : Bytes :=
  (if P.isOdd then 3 else 2) :: bigEndian 32 P.x

/-- 65 bytes: both coordinates. -/
def uncompressed (P : Point) : Bytes := 4 :: (bigEndian 32 P.x ++ bigEndian 32 P.y)

/-- Reads either form. The long form may also state the parity in its first byte, which must then
be right. -/
def decode? : Bytes → Option Point
  | [] => none
  | tag :: rest =>
    if rest.length = 32 then
      if tag = 2 ∨ tag = 3 then lift? (ofBigEndian rest) (tag = 3) else none
    else if rest.length = 64 then
      if tag = 4 ∨ tag = 6 ∨ tag = 7 then
        (ofCoordinates? (ofBigEndian (rest.take 32)) (ofBigEndian (rest.drop 32))).filter
          fun P => tag = 4 || P.isOdd = (tag = 7)
      else none
    else none

end Point

/-! ## Arithmetic -/

structure Jacobian where
  x : Nat
  y : Nat
  z : Nat

namespace Jacobian

def infinity : Jacobian := ⟨1, 1, 0⟩

def ofPoint (P : Point) : Jacobian := ⟨P.x, P.y, 1⟩

/-- The generator. -/
def generator : Jacobian :=
  ⟨0x79be667ef9dcbbac55a06295ce870b07029bfcdb2dce28d959f2815b16f81798,
   0x483ada7726a3c4655da4fbfc0e1108a8fd17b448a68554199c47d08ffb10d4b8, 1⟩

def double (P : Jacobian) : Jacobian :=
  let a := mul P.x P.x
  let b := mul P.y P.y
  let c := mul b b
  let s := P.x + b
  let d := sub (sub (mul s s) a) c * 2 % prime
  let e := 3 * a
  let x := sub (mul e e) (2 * d % prime)
  ⟨x, sub (mul e (sub d x)) (8 * c % prime), mul (2 * P.y) P.z⟩

def add (P Q : Jacobian) : Jacobian :=
  if P.z = 0 then Q
  else if Q.z = 0 then P
  else
    let z1 := mul P.z P.z
    let z2 := mul Q.z Q.z
    let u1 := mul P.x z2
    let s1 := mul P.y (mul z2 Q.z)
    let h := sub (mul Q.x z1) u1
    let r := sub (mul Q.y (mul z1 P.z)) s1
    if h = 0 then if r = 0 then P.double else infinity
    else
      let h2 := mul h h
      let h3 := mul h h2
      let v := mul u1 h2
      let x := sub (sub (mul r r) h3) (2 * v % prime)
      ⟨x, sub (mul r (sub v x)) (mul s1 h3), mul h (mul P.z Q.z)⟩

/-- `acc + k · P`, for a scalar of at most `bits` bits. -/
def addMul (acc : Jacobian) : (bits k : Nat) → Jacobian → Jacobian
  | 0, _, _ => acc
  | bits + 1, k, P => addMul (if k % 2 = 1 then acc.add P else acc) bits (k / 2) P.double

def scale (k : Nat) (P : Jacobian) : Jacobian := addMul infinity 256 k P

/-- The affine coordinates of a finite point. -/
def affine? (P : Jacobian) : Option (Nat × Nat) :=
  if P.z = 0 then none
  else
    let i := invMod prime P.z
    let i2 := mul i i
    some (mul P.x i2, mul P.y (mul i2 i))

def toPoint? (P : Jacobian) : Option Point :=
  P.affine?.bind fun (x, y) => Point.ofCoordinates? x y

end Jacobian

end Wager.Curve
