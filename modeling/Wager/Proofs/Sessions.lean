import Wager.Proofs.Reading
import Wager.Wire.InPlace

/-!
# Reads in sequence

**Reading back.** Items that are written in a row are read back by their forms in the same order,
and the cursor is left in front of whatever stands behind them (`Form.session_items`).

**In place.** A reader that moves a position over the data relies on its accesses being possible.
From a position in the data they all are: the reader comes to the same as the decoder, at a position
in the data that is not before the old one (`InPlace.Agrees`). A step of a session follows from the
read that it makes, and a session from its steps (`Form.orderly`).

**Failures.** A read of fixed width that fails has not moved the cursor (`Decoder.Fixed`).

Main result: `Form.reads_in_sequence`.
-/

namespace Wager

open Exchange Cursor

variable {α β : Type} {data : Bytes}

/-! ## Reads of fixed width -/

namespace Decoder

variable {n : Nat} {read : Decoder α}

theorem resultIn_bytes (n : Nat) (c : Cursor) : resultIn (bytes n) c =
    if n ≤ c.remaining then (.ok (c.rest.take n), c.advance n)
    else (malformed (.unexpectedEnd n c.position c.remaining), c) := rfl

/-- A byte is what the read of one byte gives. -/
theorem u8_eq : u8 = (List.headD · 0) <$> bytes 1 := by
  refine eq_of_resultIn fun c => ?_
  rcases c with ⟨p, _ | ⟨b, rest⟩⟩
  · rfl
  · rfl

/-- Bytes that were read always make a block. -/
theorem bytes_eq (n : Nat) : bytes n = (·.toList) <$> block n := by
  refine eq_of_resultIn fun c => ?_
  rw [resultIn_map, block, resultIn_bind, resultIn_bytes]
  by_cases hle : n ≤ c.remaining
  · have hlen : (c.rest.take n).length = n := List.length_take_of_le hle
    obtain ⟨v, hv⟩ : ∃ v, block? n (c.rest.take n) = some v := ⟨_, dif_pos hlen⟩
    rw [if_pos hle]
    simp only [exactly, hv, need, resultIn_lift]
    rw [block?_eq_some.1 hv]
    rfl
  · rw [if_neg hle]
    rfl

/-- The read takes `n` bytes, or fails without moving when there are fewer. -/
structure Fixed (n : Nat) (read : Decoder α) : Prop where
  gives : ∀ c : Cursor, n ≤ c.remaining → ∃ a, Gives read c a (c.advance n)
  fails : ∀ c : Cursor, c.remaining < n →
    resultIn read c = (malformed (.unexpectedEnd n c.position c.remaining), c)

theorem fixed_map {f : α → β} : Fixed n (f <$> read) ↔ Fixed n read := by
  constructor
  · intro h
    refine ⟨fun c hle => ?_, fun c hlt => resultIn_map_eq_error.1 (h.fails c hlt)⟩
    obtain ⟨b, hb⟩ := h.gives c hle
    obtain ⟨a, ha, -⟩ := gives_map.1 hb
    exact ⟨a, ha⟩
  · intro h
    refine ⟨fun c hle => ?_, fun c hlt => resultIn_map_eq_error.2 (h.fails c hlt)⟩
    obtain ⟨a, ha⟩ := h.gives c hle
    exact ⟨f a, gives_map.2 ⟨a, ha, rfl⟩⟩

theorem fixed_bytes (n : Nat) : Fixed n (bytes n) where
  gives c hle := ⟨_, (resultIn_bytes n c).trans (if_pos hle)⟩
  fails c hlt := (resultIn_bytes n c).trans (if_neg (Nat.not_le.2 hlt))

theorem fixed_block (n : Nat) : Fixed n (block n) := by
  have hbytes := fixed_bytes n
  rw [bytes_eq] at hbytes
  exact fixed_map.1 hbytes

/-- A fixed read fails only for want of bytes. -/
theorem Fixed.eq_of_error (h : Fixed n read) {c c' : Cursor} {fault : Fault}
    (hfault : resultIn read c = (.error fault, c')) :
    c' = c ∧ c.remaining < n ∧
      fault = .malformed (.unexpectedEnd n c.position c.remaining) := by
  by_cases hle : n ≤ c.remaining
  · obtain ⟨a, ha⟩ := h.gives c hle
    exact absurd (hfault.symm.trans ha) (by simp)
  · obtain ⟨hresult, rfl⟩ := Prod.mk.inj (hfault.symm.trans (h.fails c (by omega)))
    exact ⟨rfl, by omega, Except.error.inj hresult⟩

end Decoder

namespace Form

/-- The number of bytes that a form takes in any case. -/
def width? : Form → Option Nat
  | u8 => some 1
  | u16 => some 2
  | u32 => some 4
  | u64 => some 8
  | bytes n => some n
  | block n => some n
  | compact => none
  | length => none
  | sized => none

theorem fixed_decoder {form : Form} {n : Nat} (h : form.width? = some n) :
    Decoder.Fixed n form.decoder := by
  cases form with
  | u8 =>
    obtain rfl := Option.some.inj h
    rw [decoder, Decoder.u8_eq]
    exact Decoder.fixed_map.2 (Decoder.fixed_map.2 (Decoder.fixed_bytes 1))
  | u16 | u32 | u64 =>
    obtain rfl := Option.some.inj h
    exact Decoder.fixed_map.2 (Decoder.fixed_map.2 (Decoder.fixed_bytes _))
  | bytes m =>
    obtain rfl := Option.some.inj h
    exact Decoder.fixed_map.2 (Decoder.fixed_bytes m)
  | block m =>
    obtain rfl := Option.some.inj h
    exact Decoder.fixed_map.2 (Decoder.fixed_block m)
  | compact | length | sized => cases h

end Form

/-! ## Reads in place -/

namespace InPlace

/-- From a position in the data the decoder comes to a position in the data that is not before the
old one. If all positions are words the read in place comes to the same. -/
def Agrees (data : Bytes) (x : InPlace α) (read : Decoder α) : Prop :=
  ∀ p ≤ data.length, ∃ outcome, ∃ q ≤ data.length, p ≤ q ∧
    resultIn read ⟨p, data.drop p⟩ = (outcome, ⟨q, data.drop q⟩) ∧
    (data.length < UInt64.size → x p = some (outcome, q))

section

variable {x : InPlace α} {f : α → InPlace β} {p q : Nat}

theorem run_bind_of_ok {a : α} (h : x p = some (.ok a, q)) : (x >>= f) p = f a q := by
  change (x p).bind _ = _
  rw [h]
  rfl

theorem run_bind_of_error {fault : Fault} (h : x p = some (.error fault, q)) :
    (x >>= f) p = some (.error fault, q) := by
  change (x p).bind _ = _
  rw [h]
  rfl

end

theorem run_sure {o : Option α} {a : α} (h : o = some a) (p : Nat) :
    sure o p = some (.ok a, p) := by
  rw [sure, h]
  rfl

theorem run_remaining {p : Nat} (h : p ≤ data.length) :
    remaining data p = some (.ok (data.length - p), p) := run_sure (if_pos h) p

theorem agrees_pure (a : α) : Agrees data (pure a) (pure a) :=
  fun p hp => ⟨.ok a, p, hp, Nat.le_refl p, rfl, fun _ => rfl⟩

theorem agrees_lift (x : Outcome α) : Agrees data (liftM x) (liftM x) :=
  fun p hp => ⟨x, p, hp, Nat.le_refl p, rfl, fun _ => rfl⟩

section

variable {x : InPlace α} {read : Decoder α}

theorem Agrees.bind {f : α → InPlace β} {next : α → Decoder β} (h : Agrees data x read)
    (hnext : ∀ a, Agrees data (f a) (next a)) : Agrees data (x >>= f) (read >>= next) := by
  intro p hp
  obtain ⟨outcome, q, hq, hpq, hread, hplace⟩ := h p hp
  rw [resultIn_bind, hread]
  cases outcome with
  | error fault =>
    exact ⟨.error fault, q, hq, hpq, rfl, fun hdata => run_bind_of_error (hplace hdata)⟩
  | ok a =>
    obtain ⟨outcome, r, hr, hqr, hnext, hplace'⟩ := hnext a q hq
    refine ⟨outcome, r, hr, Nat.le_trans hpq hqr, hnext, fun hdata => ?_⟩
    rw [run_bind_of_ok (hplace hdata), hplace' hdata]

theorem Agrees.map (f : α → β) (h : Agrees data x read) :
    Agrees data (f <$> x) (f <$> read) := by
  rw [map_eq_pure_bind, map_eq_pure_bind]
  exact h.bind fun a => agrees_pure (f a)

/-- What a read relies on may follow from what it has read. -/
theorem Agrees.sure {f : α → Option β} {g : α → β} (h : Agrees data x read)
    (hf : ∀ {c a c'}, Gives read c a c' → f a = some (g a)) :
    Agrees data (do sure (f (← x))) (g <$> read) := by
  intro p hp
  obtain ⟨outcome, q, hq, hpq, hread, hplace⟩ := h p hp
  rw [resultIn_map, hread]
  cases outcome with
  | error fault =>
    exact ⟨.error fault, q, hq, hpq, rfl, fun hdata => run_bind_of_error (hplace hdata)⟩
  | ok a =>
    refine ⟨.ok (g a), q, hq, hpq, rfl, fun hdata => ?_⟩
    rw [run_bind_of_ok (hplace hdata), run_sure (hf hread)]

end

theorem slice?_of_le {p n : Nat} (h : p + n ≤ data.length) :
    slice? data p (p + n) = some ((data.drop p).take n) := by
  rw [slice?, if_pos ⟨by omega, h⟩, Nat.add_sub_cancel_left]

theorem agrees_bytes (n : Nat) : Agrees data (bytes data n) (Decoder.bytes n) := by
  intro p hp
  have hleft : Cursor.remaining ⟨p, data.drop p⟩ = data.length - p := List.length_drop
  have hrun : bytes data n p = (if data.length - p < n then
      throw (.malformed (.unexpectedEnd n p (data.length - p))) else do
        let last ← sure (if p + n < UInt64.size then some (p + n) else none)
        let taken ← sure (slice? data p last)
        set last
        return taken : InPlace Bytes) p := by
    rw [bytes, run_bind_of_ok (run_remaining hp)]
    change (if data.length - p < n then _ else _ : InPlace Bytes) p = _
    split
    · rfl
    · rfl
  rw [Decoder.resultIn_bytes, hleft, hrun]
  by_cases hn : n ≤ data.length - p
  · rw [if_pos hn, if_neg (Nat.not_lt.2 hn)]
    refine ⟨.ok ((data.drop p).take n), p + n, by omega, Nat.le_add_right p n, ?_, fun hdata => ?_⟩
    · rw [advance, List.drop_drop]
    · have hsum : (if p + n < UInt64.size then some (p + n) else none) = some (p + n) :=
        if_pos (by omega)
      rw [run_bind_of_ok (run_sure hsum p), run_bind_of_ok (run_sure (slice?_of_le (by omega)) p)]
      rfl
  · rw [if_neg hn, if_pos (by omega)]
    exact ⟨_, p, hp, Nat.le_refl p, rfl, fun _ => rfl⟩

theorem agrees_block (n : Nat) : Agrees data (block data n) (Decoder.block n) :=
  (agrees_bytes n).bind fun taken => agrees_lift (Decoder.exactly n taken)

theorem agrees_u8 : Agrees data (u8 data) Decoder.u8 := by
  rw [Decoder.u8_eq]
  refine (agrees_bytes 1).sure fun h => ?_
  obtain ⟨b, rfl⟩ := List.length_eq_one_iff.1 (Decoder.gives_bytes.1 h).1
  rfl

/-- A word that is made of a block is made of the bytes in it. -/
theorem agrees_word (n : Nat) (word : Nat → α) :
    Agrees data (do return word (ofLittleEndian (← block data n).toList))
      (do return word (ofLittleEndian (← Decoder.bytes n))) := by
  rw [Decoder.bytes_eq]
  simpa using (agrees_block n).map fun taken => word (ofLittleEndian taken.toList)

theorem agrees_compact : Agrees data (compact data) Decoder.compact := by
  refine agrees_u8.bind fun marker => ?_
  split
  · exact (agrees_word 2 UInt16.ofNat).map UInt16.toUInt64
  · exact (agrees_word 4 UInt32.ofNat).map UInt32.toUInt64
  · exact agrees_word 8 UInt64.ofNat
  · next hshort hword hlong =>
    have hsmall : Agrees data (pure marker.toUInt64) (pure marker.toUInt64) := agrees_pure _
    simpa only [hshort, hword, hlong] using hsmall

theorem agrees_length : Agrees data (length data) Decoder.length := by
  refine agrees_compact.bind fun n p hp => ?_
  have hleft : Cursor.remaining ⟨p, data.drop p⟩ = data.length - p := List.length_drop
  rw [run_bind_of_ok (run_remaining hp)]
  change ∃ outcome, ∃ q ≤ data.length, p ≤ q ∧
    resultIn (if Cursor.remaining ⟨p, data.drop p⟩ < n.toNat then _ else _ : Decoder Nat)
      ⟨p, data.drop p⟩ = _ ∧
    (_ → (if data.length - p < n.toNat then _ else _ : InPlace Nat) p = _)
  rw [hleft]
  by_cases hshort : data.length - p < n.toNat
  · rw [if_pos hshort, if_pos hshort]
    exact ⟨malformed (.lengthBeyond n (data.length - p)), p, hp, Nat.le_refl p, rfl, fun _ => rfl⟩
  · rw [if_neg hshort, if_neg hshort]
    exact ⟨.ok n.toNat, p, hp, Nat.le_refl p, rfl, fun _ => rfl⟩

theorem agrees_sized : Agrees data (sized data) Decoder.sized := agrees_length.bind agrees_bytes

end InPlace

/-! ## Sessions -/

namespace Form

theorem agrees_inPlace (form : Form) :
    InPlace.Agrees data (form.inPlace data) form.decoder := by
  cases form with
  | u8 => exact InPlace.agrees_u8.map Item.u8
  | u16 => exact (InPlace.agrees_word 2 UInt16.ofNat).map Item.u16
  | u32 => exact (InPlace.agrees_word 4 UInt32.ofNat).map Item.u32
  | u64 => exact (InPlace.agrees_word 8 UInt64.ofNat).map Item.u64
  | compact => exact InPlace.agrees_compact.map Item.compact
  | length => exact InPlace.agrees_length.map Item.length
  | bytes n => exact (InPlace.agrees_bytes n).map Item.bytes
  | block n => exact (InPlace.agrees_block n).map (Item.bytes ·.toList)
  | sized => exact InPlace.agrees_sized.map Item.sized

/-- A session from a position in the data: the cursor keeps the rest of the data and never goes
back, and in place there is a result, the same as with a cursor. -/
structure Orderly (data : Bytes) (forms : List Form) (p : Nat) : Prop where
  whole : ∀ entry ∈ session forms ⟨p, data.drop p⟩,
    entry.2.position + entry.2.remaining = data.length
  ascending : (p :: (session forms ⟨p, data.drop p⟩).map fun entry => entry.2.position).Pairwise
    (· ≤ ·)
  inPlace : data.length < UInt64.size → sessionInPlace data forms p =
    some ((session forms ⟨p, data.drop p⟩).map fun entry => (entry.1, entry.2.position))

theorem orderly (forms : List Form) {p : Nat} (hp : p ≤ data.length) : Orderly data forms p := by
  induction forms generalizing p with
  | nil =>
    exact ⟨fun _ hentry => absurd hentry List.not_mem_nil, List.pairwise_singleton _ _,
      fun _ => rfl⟩
  | cons form forms ih =>
    obtain ⟨outcome, q, hq, hpq, hread, hplace⟩ := agrees_inPlace form p hp
    obtain ⟨hwhole, hascending, hinPlace⟩ := ih hq
    have hsession : session (form :: forms) ⟨p, data.drop p⟩ =
        (outcome, ⟨q, data.drop q⟩) :: session forms ⟨q, data.drop q⟩ := by
      change resultIn form.decoder _ :: session forms (resultIn form.decoder _).2 = _
      rw [hread]
    constructor
    case whole =>
      rw [hsession, List.forall_mem_cons]
      refine ⟨?_, hwhole⟩
      change q + (data.drop q).length = data.length
      rw [List.length_drop]
      omega
    case ascending =>
      rw [hsession, List.map_cons]
      refine List.pairwise_cons.2 ⟨fun r hr => ?_, hascending⟩
      rcases List.mem_cons.1 hr with rfl | hr
      · exact hpq
      · exact Nat.le_trans hpq (List.rel_of_pairwise_cons hascending hr)
    case inPlace =>
      intro hdata
      rw [hsession, sessionInPlace, hplace hdata, List.map_cons]
      change (sessionInPlace data forms q).bind _ = _
      rw [hinPlace hdata]
      rfl

/-- The cursor that a session leaves. -/
def after (forms : List Form) (c : Cursor) : Cursor :=
  forms.foldl (fun c form => (form.decoder c).2) c

end Form

/-! ## Items -/

/-- The item is read back from what is written, whatever stands behind it: it is no count of what
follows, and the length of a byte string is a word. -/
inductive Item.Writable : Item → Prop
  | u8 (n : UInt8) : Writable (.u8 n)
  | u16 (n : UInt16) : Writable (.u16 n)
  | u32 (n : UInt32) : Writable (.u32 n)
  | u64 (n : UInt64) : Writable (.u64 n)
  | compact (n : UInt64) : Writable (.compact n)
  | bytes (data : Bytes) : Writable (.bytes data)
  | sized {data : Bytes} (h : data.length < UInt64.size) : Writable (.sized data)

theorem Item.Writable.gives {item : Item} {c c' : Cursor} (h : item.Writable)
    (hpass : c.Passes item.encode c') : Gives item.form.decoder c item c' := by
  cases h with
  | u8 n => exact gives_map.2 ⟨n, Decoder.gives_u8.2 hpass, rfl⟩
  | u16 n => exact gives_map.2 ⟨n, Decoder.gives_u16.2 hpass, rfl⟩
  | u32 n => exact gives_map.2 ⟨n, Decoder.gives_u32.2 hpass, rfl⟩
  | u64 n => exact gives_map.2 ⟨n, Decoder.gives_u64.2 hpass, rfl⟩
  | compact n => exact gives_map.2 ⟨n, Decoder.gives_compact hpass, rfl⟩
  | bytes data => exact gives_map.2 ⟨data, Decoder.gives_bytes.2 ⟨rfl, hpass⟩, rfl⟩
  | sized hlen => exact gives_map.2 ⟨_, Decoder.gives_sized hlen hpass, rfl⟩

namespace Form

theorem session_items {items : List Item} {c c' : Cursor} (hitems : ∀ item ∈ items, item.Writable)
    (hpass : c.Passes (items.flatMap Item.encode) c') :
    (session (items.map Item.form) c).map Prod.fst = items.map .ok ∧
      after (items.map Item.form) c = c' := by
  induction items generalizing c with
  | nil => exact ⟨rfl, passes_nil.1 hpass⟩
  | cons item items ih =>
    rw [List.flatMap_cons] at hpass
    obtain ⟨c₁, hfirst, hrest⟩ := passes_append.1 hpass
    obtain ⟨hitem, hitems⟩ := List.forall_mem_cons.1 hitems
    have hread : item.form.decoder c = (.ok item, c₁) := hitem.gives hfirst
    obtain ⟨houtcomes, hafter⟩ := ih hitems hrest
    refine ⟨?_, ?_⟩
    · rw [List.map_cons, session, hread, List.map_cons, houtcomes, List.map_cons]
    · rw [List.map_cons, after, List.foldl_cons, hread]
      exact hafter

/-- Items that are written in a row are read back in the same order, and the cursor is left in front
of what stands behind them. A compact integer has the size that is told of it. Whatever is read from
whatever data, reads that fail included, the cursor keeps all that is left of the data and never
goes back, and in place every access is possible. A read of fixed width fails only for want of
bytes, and then leaves the cursor where it was. -/
theorem reads_in_sequence (items : List Item) (suffix data : Bytes) (forms : List Form) (n : UInt64)
    (form : Form) (width : Nat) (c c' : Cursor) (fault : Fault)
    (hitems : ∀ item ∈ items, item.Writable) :
    (session (items.map Item.form) (start (items.flatMap Item.encode ++ suffix))).map Prod.fst =
      items.map .ok ∧
    after (items.map Item.form) (start (items.flatMap Item.encode ++ suffix)) =
      ⟨(items.flatMap Item.encode).length, suffix⟩ ∧
    (Encode.compact n).length = Encode.compactSize n ∧
    (∀ entry ∈ session forms (start data),
      entry.2.position + entry.2.remaining = data.length) ∧
    ((session forms (start data)).map fun entry => entry.2.position).Pairwise (· ≤ ·) ∧
    (data.length < UInt64.size → sessionInPlace data forms 0 =
      some ((session forms (start data)).map fun entry => (entry.1, entry.2.position))) ∧
    (form.width? = some width → form.decoder c = (.error fault, c') →
      c' = c ∧ c.remaining < width ∧
        fault = .malformed (.unexpectedEnd width c.position c.remaining)) := by
  have hpass : (start (items.flatMap Item.encode ++ suffix)).Passes (items.flatMap Item.encode)
      ⟨(items.flatMap Item.encode).length, suffix⟩ := ⟨rfl, (Nat.zero_add _).symm⟩
  obtain ⟨houtcomes, hafter⟩ := session_items hitems hpass
  have horderly : Orderly data forms 0 := orderly forms (Nat.zero_le _)
  exact ⟨houtcomes, hafter, Encode.length_compact n, horderly.whole, horderly.ascending.of_cons,
    horderly.inPlace, fun hwidth => (fixed_decoder hwidth).eq_of_error⟩

/-- Items of every width, and a session in which a count ends too early behind its marker. -/
theorem reads_mixed : (session [.u16, .compact, .sized, .u64, .u32]
      (start ([0xff, 0xfd, 0xfd, 0xfd, 0, 2, 8, 9, 7, 0, 0, 0, 0, 0, 0, 0, 5, 0, 0, 0] ++ [1]))).map
        Prod.fst =
      [.ok (.u16 0xfdff), .ok (.compact 0xfd), .ok (.sized [8, 9]), .ok (.u64 7), .ok (.u32 5)] ∧
    (sessionInPlace [0xfe, 1, 2, 3] [.compact, .u16, .u32, .bytes 2] 0).isSome ∧
    (Form.u32.decoder ⟨3, [3]⟩).2 = ⟨3, [3]⟩ := by
  let items : List Item := [.u16 0xfdff, .compact 0xfd, .sized [8, 9], .u64 7, .u32 5]
  have hitems : ∀ item ∈ items, item.Writable := by
    simp only [items, List.forall_mem_cons]
    exact ⟨.u16 _, .compact _, .sized (by decide), .u64 _, .u32 _, List.forall_mem_nil _⟩
  obtain ⟨houtcomes, -, -, -, -, hinPlace, hstays⟩ := reads_in_sequence items [1] [0xfe, 1, 2, 3]
    [.compact, .u16, .u32, .bytes 2] 0 .u32 4 ⟨3, [3]⟩ (Form.u32.decoder ⟨3, [3]⟩).2
    (.malformed (.unexpectedEnd 4 3 1)) hitems
  refine ⟨houtcomes, ?_, (hstays rfl rfl).1⟩
  rw [hinPlace (by decide)]
  rfl

end Form

end Wager
