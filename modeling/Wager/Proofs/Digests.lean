import Mathlib.Data.List.GetD
import Wager.Crypto.Signature

/-!
# Digests on lists

**Evaluation.** The kernel is slow to evaluate a schedule that grows at the end of an array. Here
the words of SHA-256 are kept in lists, with the newest in front, and the rounds go along a list
with the constants. This gives the same digest (`sha256_eq`), which lets the digests of concrete
messages be evaluated. So does the nonce that is drawn from such digests, and with it the signature
(`Signature.sign_eq`).
-/

namespace Wager

namespace Sha256

/-! ## One block -/

/-- Extends a schedule by `n` words. The newest word stands in front. -/
def extend : Nat → List UInt32 → List UInt32
  | 0, w => w
  | n + 1, w =>
    let x := w.getD 14 0
    let y := w.getD 1 0
    let s0 := rotr x 7 ^^^ rotr x 18 ^^^ (x >>> 3)
    let s1 := rotr y 17 ^^^ rotr y 19 ^^^ (y >>> 10)
    extend n ((w.getD 15 0 + s0 + w.getD 6 0 + s1) :: w)

/-- The rounds with these constants and words. -/
def roundsOf : List (UInt32 × UInt32) → (a b c d e f g h : UInt32) → State
  | [], a, b, c, d, e, f, g, h => ⟨a, b, c, d, e, f, g, h⟩
  | (k, w) :: rest, a, b, c, d, e, f, g, h =>
    let s1 := rotr e 6 ^^^ rotr e 11 ^^^ rotr e 25
    let ch := g ^^^ (e &&& (f ^^^ g))
    let t1 := h + s1 + ch + k + w
    let s0 := rotr a 2 ^^^ rotr a 13 ^^^ rotr a 22
    let maj := (a &&& b) ||| (c &&& (a ||| b))
    roundsOf rest (t1 + s0 + maj) a b c (d + t1) e f g

/-- Absorbs the sixteen words of a block, of which the last stands in front. -/
def compressOf (s : State) (words : List UInt32) : State :=
  let t := roundsOf (roundConstants.toList.zip (extend 48 words).reverse)
    s.a s.b s.c s.d s.e s.f s.g s.h
  ⟨s.a + t.a, s.b + t.b, s.c + t.c, s.d + t.d, s.e + t.e, s.f + t.f, s.g + t.g, s.h + t.h⟩

/-- What stands `k` places before the end of an array stands at `k` in its reversed list. -/
theorem getD_sub {w : Array UInt32} {k : Nat} (h : k < w.size) :
    w.getD (w.size - (k + 1)) 0 = w.toList.reverse.getD k 0 := by
  have hlt : k < w.toList.length := by simpa using h
  rw [Array.getD_eq_getD_getElem?, List.getD_eq_getElem?_getD, List.getElem?_reverse hlt,
    Array.getElem?_toList, Array.length_toList, Nat.sub_sub, Nat.add_comm 1 k]

theorem reverse_stretch {w : Array UInt32} (h : 16 ≤ w.size) (n : Nat) :
    (stretch n w).toList.reverse = extend n w.toList.reverse := by
  induction n generalizing w with
  | zero => rfl
  | succ n ih =>
    have h15 : w.getD (w.size - 15) 0 = w.toList.reverse.getD 14 0 := getD_sub (by omega)
    have h2 : w.getD (w.size - 2) 0 = w.toList.reverse.getD 1 0 := getD_sub (by omega)
    have h16 : w.getD (w.size - 16) 0 = w.toList.reverse.getD 15 0 := getD_sub (by omega)
    have h7 : w.getD (w.size - 7) 0 = w.toList.reverse.getD 6 0 := getD_sub (by omega)
    rw [stretch, ih (by rw [Array.size_push]; omega), Array.toList_push, List.reverse_concat,
      extend, h15, h2, h16, h7]

theorem size_stretch (w : Array UInt32) (n : Nat) : (stretch n w).size = w.size + n := by
  induction n generalizing w with
  | zero => rfl
  | succ n ih =>
    rw [stretch, ih, Array.size_push]
    omega

theorem getD_of_lt {w : Array UInt32} {i : Nat} (h : i < w.toList.length) :
    w.getD i 0 = w.toList[i] := by
  rw [Array.getD_eq_getD_getElem?, ← Array.getElem?_toList, List.getElem?_eq_getElem h,
    Option.getD_some]

theorem rounds_eq {w : Array UInt32} (hw : w.size = 64) {n : Nat} (hn : n ≤ 64)
    (a b c d e f g h : UInt32) :
    rounds w n a b c d e f g h =
      roundsOf ((roundConstants.toList.zip w.toList).drop (64 - n)) a b c d e f g h := by
  have hconstants : roundConstants.toList.length = 64 := rfl
  have hwords : w.toList.length = 64 := by rw [Array.length_toList, hw]
  induction n generalizing a b c d e f g h with
  | zero =>
    have hlen : (roundConstants.toList.zip w.toList).length = 64 := by
      rw [List.length_zip, hconstants, hwords, Nat.min_self]
    rw [List.drop_of_length_le (Nat.le_of_eq hlen)]
    rfl
  | succ n ih =>
    have hlt : 63 - n < (roundConstants.toList.zip w.toList).length := by
      rw [List.length_zip, hconstants, hwords]
      omega
    have hnext : 63 - n + 1 = 64 - n := by omega
    have hdrop := List.drop_eq_getElem_cons hlt
    rw [List.getElem_zip, hnext] at hdrop
    rw [rounds, getD_of_lt (by omega), getD_of_lt (by omega), ih (by omega), Nat.succ_sub_succ,
      hdrop, roundsOf]

theorem compress_eq (s : State) {words : Array UInt32} (h : words.size = 16) :
    compress s words = compressOf s words.toList.reverse := by
  have hsize : (stretch 48 words).size = 64 := by rw [size_stretch, h]
  have hlist : (stretch 48 words).toList = (extend 48 words.toList.reverse).reverse := by
    rw [← reverse_stretch (Nat.le_of_eq h.symm), List.reverse_reverse]
  rw [compress, compressOf, rounds_eq hsize (Nat.le_refl 64), Nat.sub_self, List.drop_zero, hlist]

/-! ## Messages -/

/-- Collects words, the newest in front, until a block is full, absorbs it and goes on. -/
def absorbOf (s : State) (words : List UInt32) : Bytes → State
  | a :: b :: c :: d :: rest =>
    let words := word a b c d :: words
    if words.length = 16 then absorbOf (compressOf s words) [] rest else absorbOf s words rest
  | _ => s

theorem absorb_eq (s : State) {words : Array UInt32} (h : words.size < 16) (data : Bytes) :
    absorb s words data = absorbOf s words.toList.reverse data := by
  fun_induction absorb s words data with
  | case1 s words a b c d rest pushed hfull ih =>
    have hlist : pushed.toList.reverse = word a b c d :: words.toList.reverse := by
      rw [Array.toList_push, List.reverse_concat]
    have hlen : (word a b c d :: words.toList.reverse).length = 16 := by
      rw [← hlist, List.length_reverse, Array.length_toList, hfull]
    rw [ih (by decide), absorbOf, if_pos hlen, compress_eq s hfull, hlist]
    rfl
  | case2 s words a b c d rest pushed hpartial ih =>
    have hlist : pushed.toList.reverse = word a b c d :: words.toList.reverse := by
      rw [Array.toList_push, List.reverse_concat]
    have hlen : (word a b c d :: words.toList.reverse).length ≠ 16 := by
      rwa [← hlist, List.length_reverse, Array.length_toList]
    have hsize : pushed.size = words.size + 1 := Array.size_push ..
    rw [ih (by omega), absorbOf, if_neg hlen, hlist]
  | case3 s words data hshort =>
    rw [absorbOf]
    exact hshort

/-- The digest of a message, made with lists. -/
def digestOf (message : Bytes) : Hash256 := (absorbOf .initial [] (pad message)).digest

end Sha256

theorem sha256_eq (message : Bytes) : sha256 message = Sha256.digestOf message := by
  rw [sha256, Sha256.absorb_eq _ (by decide)]
  rfl

theorem doubleSha256_eq (message : Bytes) :
    doubleSha256 message = Sha256.digestOf (Sha256.digestOf message).toList := by
  rw [doubleSha256, sha256_eq, sha256_eq]

theorem hash160_eq (message : Bytes) :
    hash160 message = ripemd160 (Sha256.digestOf message).toList := by
  rw [hash160, sha256_eq]

/-! ## Nonces -/

/-- HMAC with the digests on lists. -/
def Sha256.hmacOf (key message : Bytes) : Bytes :=
  let padded := key ++ List.replicate (64 - key.length) 0
  let inner := digestOf (padded.map (· ^^^ 0x36) ++ message)
  (digestOf (padded.map (· ^^^ 0x5c) ++ inner.toList)).toList

theorem toList_hmacSha256 (key message : Bytes) :
    (hmacSha256 key message).toList = Sha256.hmacOf key message := by
  rw [hmacSha256, sha256_eq, sha256_eq]
  rfl

namespace Signature

open Curve

/-- The first nonce that is drawn for this material. -/
def nonceOf (material : Bytes) : Nat :=
  let key := Sha256.hmacOf (.replicate 32 0) (.replicate 32 1 ++ 0 :: material)
  let value := Sha256.hmacOf key (.replicate 32 1)
  let key := Sha256.hmacOf key (value ++ 1 :: material)
  ofBigEndian (Sha256.hmacOf key (Sha256.hmacOf key value))

theorem ofBigEndian_next_seed (material : Bytes) :
    ofBigEndian (Drbg.seed material).next.1 = nonceOf material := by
  simp only [Drbg.seed, Drbg.rekey, Drbg.next, toList_hmacSha256]
  rfl

/-- The signature is made with the first nonce that is drawn. -/
def AtOnce (secret : Nat) (digest : Hash256) (sig : Signature) : Prop :=
  let m := ofBigEndian digest.toList % order
  let nonce := nonceOf (bigEndian 32 secret ++ bigEndian 32 m)
  withNonce secret m nonce = sig ∧ nonce ≠ 0 ∧ nonce < order ∧ sig.r ≠ 0 ∧ sig.s ≠ 0
deriving Decidable

theorem sign_eq {secret : Nat} {digest : Hash256} {sig : Signature}
    (h : AtOnce secret digest sig) : sign secret digest = sig := by
  obtain ⟨rfl, hvalid⟩ := h
  rw [sign, signFrom]
  simp only [ofBigEndian_next_seed]
  exact if_pos hvalid

end Signature

end Wager
