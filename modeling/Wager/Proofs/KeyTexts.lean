import Wager.Keys.PrivateKey
import Wager.Proofs.Numerals
import Wager.Proofs.Recovery

/-!
# Texts of keys and addresses

**The check.** A text that passes is the one that its payload is written as, so it is the only one
of that payload (`Base58.decodeCheck_eq_ok_iff`). Any other text has a character that is no digit,
or stands for too few bytes, or for bytes that end in another checksum (`Base58.Refused`).

**Keys and addresses** are read back from their payloads, in which nothing is left open: the version
byte tells the network and the payee, the flag behind a scalar stands for the short form, and a
scalar has only one key (`PrivateKey.ofSecret?_eq_some`).

Main results: `Base58.checked_texts`, `texts_of_keys_and_addresses`.
-/

namespace Wager

open Outcome

/-! ## The check -/

namespace Base58

variable {text : String} {payload sum : Bytes}

@[simp] theorem length_checksum (payload : Bytes) : (checksum payload).length = 4 := by
  rw [checksum, List.length_take, Vector.length_toList]
  rfl

theorem decodeCheck_of_short {data : Bytes} (hdata : decode text = .ok data)
    (hshort : data.length < 4) : decodeCheck text = malformed .checksumMissing := by
  rw [decodeCheck, hdata, ok_bind, if_pos hshort]

theorem decodeCheck_append (hdata : decode text = .ok (payload ++ sum)) (hsum : sum.length = 4) :
    decodeCheck text =
      if sum = checksum payload then .ok payload else malformed .checksumMismatch := by
  have hlong : ¬(payload ++ sum).length < 4 := by
    rw [List.length_append, hsum]
    omega
  have hfront : (payload ++ sum).length - 4 = payload.length := by
    rw [List.length_append, hsum, Nat.add_sub_cancel]
  rw [decodeCheck, hdata, ok_bind, if_neg hlong, hfront, List.take_left, List.drop_left]
  rfl

/-- The texts that are refused, and what each is refused for. -/
inductive Refused : String → Malformed → Prop
  /-- The first character that is no digit. -/
  | foreign {text : String} {front back : List Char} {c : Char} :
    text.toList = front ++ c :: back → (∀ x ∈ front, x ∈ alphabet) → c ∉ alphabet →
    Refused text (foreign c front.length)
  | short {data : Bytes} : data.length < 4 → Refused (encode data) .checksumMissing
  | mismatch {payload sum : Bytes} : sum.length = 4 → sum ≠ checksum payload →
    Refused (encode (payload ++ sum)) .checksumMismatch

theorem decodeCheck_encodeCheck (payload : Bytes) :
    decodeCheck (encodeCheck payload) = .ok payload := by
  rw [encodeCheck, decodeCheck_append (decode_encode _) (length_checksum payload), if_pos rfl]

theorem decodeCheck_cases (text : String) : (∃ payload, text = encodeCheck payload) ∨
    ∃ cause, decodeCheck text = malformed cause ∧ Refused text cause := by
  obtain ⟨data, rfl⟩ | ⟨front, c, back, hchars, hfront, hc, hdecode⟩ := decode_cases text
  · by_cases hshort : data.length < 4
    · exact .inr ⟨_, decodeCheck_of_short (decode_encode data) hshort, .short hshort⟩
    · obtain ⟨payload, sum, rfl, hsum⟩ :
          ∃ payload sum : Bytes, data = payload ++ sum ∧ sum.length = 4 := by
        refine ⟨_, _, (List.take_append_drop (data.length - 4) data).symm, ?_⟩
        rw [List.length_drop]
        omega
      by_cases hcheck : sum = checksum payload
      · exact .inl ⟨payload, by rw [encodeCheck, hcheck]⟩
      · refine .inr ⟨.checksumMismatch, ?_, .mismatch hsum hcheck⟩
        rw [decodeCheck_append (decode_encode _) hsum, if_neg hcheck]
  · refine .inr ⟨_, ?_, .foreign hchars hfront hc⟩
    rw [decodeCheck, hdecode]
    rfl

/-- A payload has one text. -/
theorem decodeCheck_eq_ok_iff : decodeCheck text = .ok payload ↔ text = encodeCheck payload := by
  constructor
  · intro h
    obtain ⟨payload', rfl⟩ | ⟨cause, hcause, -⟩ := decodeCheck_cases text
    · obtain rfl := Except.ok.inj ((decodeCheck_encodeCheck payload').symm.trans h)
      rfl
    · exact absurd (hcause.symm.trans h) malformed_ne_ok
  · rintro rfl
    exact decodeCheck_encodeCheck payload

/-- Payloads and the texts that pass the check belong to each other one to one, with no condition on
either. A text that belongs to no payload is refused as malformed, for one of three reasons. -/
theorem checked_texts : (∀ payload, decodeCheck (encodeCheck payload) = .ok payload) ∧
    ∀ text, (∀ payload, decodeCheck text = .ok payload ↔ text = encodeCheck payload) ∧
      ((∀ payload, text ≠ encodeCheck payload) →
        ∃ cause, decodeCheck text = malformed cause ∧ Refused text cause) := by
  refine ⟨decodeCheck_encodeCheck, fun text => ⟨fun payload => decodeCheck_eq_ok_iff, ?_⟩⟩
  intro hother
  obtain ⟨payload, htext⟩ | hrefused := decodeCheck_cases text
  · exact absurd htext (hother payload)
  · exact hrefused

end Base58

/-! ## Private keys -/

theorem Network.ofWifVersion_eq_ok {version : UInt8} {network : Network} :
    ofWifVersion version = .ok network ↔ version = network.wifVersion := by
  rw [ofWifVersion, need_eq_ok]
  constructor
  · intro h
    have hversion := List.find?_some h
    exact (of_decide_eq_true hversion).symm
  · rintro rfl
    cases network <;> rfl

namespace PrivateKey

variable {short : Bool} {network : Network} {k : PrivateKey}

/-- The scalar gives the point, so the key has nothing else of its own. -/
theorem ofSecret?_eq_some {secret : Nat} : ofSecret? secret short network = some k ↔
    k.secret = secret ∧ k.publicKey.short = short ∧ k.publicKey.network = network := by
  constructor
  · intro h
    unfold ofSecret? at h
    split at h
    · split at h
      · obtain rfl := Option.some.inj h
        exact ⟨rfl, rfl, rfl⟩
      · cases h
    · cases h
  · rintro ⟨rfl, rfl, rfl⟩
    rw [ofSecret?, dif_pos k.secret_lt]
    split
    · next point hpoint =>
      obtain rfl := Option.some.inj (k.generates.symm.trans hpoint)
      rfl
    · next hnone => exact nomatch k.generates.symm.trans hnone

theorem ofBytes_eq_ok {data : Bytes} : ofBytes data short network = .ok k ↔
    data = k.bytes ∧ k.publicKey.short = short ∧ k.publicKey.network = network := by
  have hsmall : k.secret < 256 ^ 32 := k.secret_lt.trans (by decide)
  constructor
  · intro h
    unfold ofBytes at h
    split at h
    · exact absurd h malformed_ne_ok
    · next hlen =>
      obtain ⟨hsecret, hform⟩ := ofSecret?_eq_some.1 (need_eq_ok.1 h)
      rw [bytes, hsecret, bigEndian_ofBigEndian (not_not.1 hlen)]
      exact ⟨rfl, hform⟩
  · rintro ⟨rfl, hform⟩
    rw [ofBytes, if_neg (by simp [bytes]), bytes, ofBigEndian_bigEndian hsmall]
    exact need_eq_ok.2 (ofSecret?_eq_some.2 ⟨rfl, hform⟩)

theorem ofWif_long (version : UInt8) {scalar : Bytes} (hlen : scalar.length = 32) :
    ofWif (Base58.encodeCheck (version :: scalar)) =
      Network.ofWifVersion version >>= ofBytes scalar false := by
  rw [ofWif, Base58.decodeCheck_encodeCheck, ok_bind]
  exact if_pos hlen

theorem ofWif_flagged (version flag : UInt8) {scalar : Bytes} (hlen : scalar.length = 32) :
    ofWif (Base58.encodeCheck (version :: (scalar ++ [flag]))) =
      if flag = shortFlag then Network.ofWifVersion version >>= ofBytes scalar true
      else malformed (.wifFlag flag) := by
  have hrest : (scalar ++ [flag]).length = 33 := by simp [hlen]
  rw [ofWif, Base58.decodeCheck_encodeCheck, ok_bind]
  simp only [hrest, List.getLastD_concat, List.dropLast_concat]
  rfl

theorem ofWif_wif (k : PrivateKey) : ofWif k.wif = .ok k := by
  have hversion : Network.ofWifVersion k.publicKey.network.wifVersion = .ok k.publicKey.network :=
    Network.ofWifVersion_eq_ok.2 rfl
  have hlen : k.bytes.length = 32 := length_bigEndian 32 k.secret
  rw [wif]
  cases hshort : k.publicKey.short with
  | false =>
    rw [if_neg Bool.false_ne_true, List.append_nil, ofWif_long _ hlen, hversion]
    exact ofBytes_eq_ok.2 ⟨rfl, hshort, rfl⟩
  | true =>
    rw [if_pos rfl, List.cons_append, ofWif_flagged _ _ hlen, if_pos rfl, hversion]
    exact ofBytes_eq_ok.2 ⟨rfl, hshort, rfl⟩

/-- A key in a text stands there in 32 bytes, or in 33 of which the last is a flag. -/
theorem ofWif_cases {text : String} (h : ofWif text = .ok k) : ∃ version scalar,
    scalar.length = 32 ∧ (text = Base58.encodeCheck (version :: scalar) ∨
      ∃ flag, text = Base58.encodeCheck (version :: (scalar ++ [flag]))) := by
  obtain ⟨payload, hpayload, h⟩ := bind_eq_ok.1 h
  rw [Base58.decodeCheck_eq_ok_iff] at hpayload
  cases payload with
  | nil => exact absurd h malformed_ne_ok
  | cons version rest =>
    by_cases hlong : rest.length = 32
    · exact ⟨version, rest, hlong, .inl hpayload⟩
    · by_cases hshort : rest.length = 33
      · have hne : rest ≠ [] := List.ne_nil_of_length_eq_add_one hshort
        refine ⟨version, rest.dropLast, ?_, .inr ⟨rest.getLast hne, ?_⟩⟩
        · rw [List.length_dropLast, hshort]
        · rw [List.dropLast_concat_getLast, hpayload]
      · simp only [hlong, hshort, if_false] at h
        exact absurd h malformed_ne_ok

theorem wif_of_ofWif {text : String} (h : ofWif text = .ok k) : text = k.wif := by
  obtain ⟨version, scalar, hlen, rfl | ⟨flag, rfl⟩⟩ := ofWif_cases h
  · rw [ofWif_long version hlen] at h
    obtain ⟨network, hversion, h⟩ := bind_eq_ok.1 h
    obtain ⟨rfl, hshort, rfl⟩ := ofBytes_eq_ok.1 h
    rw [wif, hshort, Network.ofWifVersion_eq_ok.1 hversion, if_neg Bool.false_ne_true,
      List.append_nil]
  · rw [ofWif_flagged version flag hlen] at h
    split at h
    · next hflag =>
      obtain ⟨network, hversion, h⟩ := bind_eq_ok.1 h
      obtain ⟨rfl, hshort, rfl⟩ := ofBytes_eq_ok.1 h
      rw [wif, hshort, Network.ofWifVersion_eq_ok.1 hversion, if_pos rfl, hflag, List.cons_append]
    · exact absurd h malformed_ne_ok

end PrivateKey

/-! ## Addresses -/

namespace Address

variable {text : String} {a : Address}

theorem ofVersion?_eq_some {version : UInt8} {network : Network} {payee : Payee} :
    ofVersion? version = some (network, payee) ↔ version = versionOf network payee := by
  constructor
  · intro h
    have hversion := List.find?_some h
    exact (of_decide_eq_true hversion).symm
  · rintro rfl
    cases network <;> cases payee <;> rfl

theorem parse_payload (version : UInt8) (hash : Hash160) :
    parse (Base58.encodeCheck (version :: hash.toList)) =
      (fun (network, payee) => ⟨network, payee, hash⟩) <$>
        need (.malformed (.addressVersion version)) (ofVersion? version) := by
  rw [parse, Base58.decodeCheck_encodeCheck, ok_bind]
  simp [Decoder.exactly_toList, ok_bind]

theorem parse_text (a : Address) : parse a.text = .ok a := by
  rw [text, parse_payload, ofVersion?_eq_some.2 rfl]
  rfl

theorem text_of_parse (h : parse text = .ok a) : text = a.text := by
  obtain ⟨payload, hpayload, h⟩ := bind_eq_ok.1 h
  rw [Base58.decodeCheck_eq_ok_iff] at hpayload
  cases payload with
  | nil => exact absurd h malformed_ne_ok
  | cons version rest =>
    by_cases hlen : rest.length = 20
    · simp only [hlen, ne_eq, not_true_eq_false, if_false] at h
      obtain ⟨hash, hhash, h⟩ := bind_eq_ok.1 h
      obtain ⟨⟨network, payee⟩, hversion, h⟩ := bind_eq_ok.1 h
      obtain rfl := pure_eq_ok.1 h
      rw [hpayload, Decoder.exactly_eq_ok.1 hhash, ofVersion?_eq_some.1 (need_eq_ok.1 hversion),
        Address.text]
    · simp only [hlen, ne_eq, not_false_eq_true, if_true] at h
      exact absurd h malformed_ne_ok

end Address

/-- Keys and addresses belong to their texts one to one, and the script that pays an address says
which it is. -/
theorem texts_of_keys_and_addresses :
    (∀ text (k : PrivateKey), PrivateKey.ofWif text = .ok k ↔ text = k.wif) ∧
    (∀ text (a : Address), Address.parse text = .ok a ↔ text = a.text) ∧
    ∀ a : Address, (Script.payToAddress a).kind =
      match a.payee with
      | .key => .key a.hash
      | .script => .script a.hash := by
  refine ⟨fun text k => ⟨PrivateKey.wif_of_ofWif, ?_⟩,
    fun text a => ⟨Address.text_of_parse, ?_⟩, fun a => ?_⟩
  · rintro rfl
    exact PrivateKey.ofWif_wif k
  · rintro rfl
    exact Address.parse_text a
  · obtain ⟨network, payee, hash⟩ := a
    cases payee with
    | key => exact Script.kind_payToKey hash
    | script => exact Script.kind_payToScript hash

end Wager
