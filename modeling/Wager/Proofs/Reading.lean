import Mathlib.Algebra.Ring.Nat
import Mathlib.Tactic.Ring
import Wager.Proofs.Success
import Wager.Wire.Encode

/-!
# What a read takes

A read that succeeds takes the bytes at the front of the cursor and stops behind them
(`Cursor.Passes`). For each read of fixed width there is one statement that says both which bytes
it takes and what it makes of them: a word is read from exactly the bytes that write it.

**Counts.** A number can be written as a compact integer in any width that holds it
(`Encode.Spells`), and is read from each of them. A number that is read as a count is refused when
fewer bytes remain (`resultIn_length`).

**Recognizing.** A read recognizes the spellings of a value if it takes exactly those, whatever
stands behind them (`Decoder.Recognizes`). Then a byte string has at most one front that it reads.
-/

namespace Wager

/-! ## Words -/

/-- A written number reads back up to the width. -/
theorem ofLittleEndian_littleEndian (width value : Nat) :
    ofLittleEndian (littleEndian width value) = value % 256 ^ width := by
  induction width generalizing value with
  | zero => simp [littleEndian, ofLittleEndian, Nat.mod_one]
  | succ width ih =>
    rw [littleEndian, ofLittleEndian, ih, Nat.pow_succ, Nat.mul_comm (256 ^ width), Nat.mod_mul]
    simp

theorem ofLittleEndian_lt (data : Bytes) : ofLittleEndian data < 256 ^ data.length := by
  induction data with
  | nil => simp [ofLittleEndian]
  | cons b rest ih =>
    have hb := b.toNat_lt
    rw [ofLittleEndian, List.length_cons, Nat.pow_succ]
    omega

theorem littleEndian_ofLittleEndian (data : Bytes) :
    littleEndian data.length (ofLittleEndian data) = data := by
  induction data with
  | nil => rfl
  | cons b rest ih =>
    have hb := b.toNat_lt
    have hmod : UInt8.ofNat (b.toNat + 256 * ofLittleEndian rest) = b := by
      rw [← UInt8.toNat_inj, UInt8.toNat_ofNat']
      omega
    have hdiv : (b.toNat + 256 * ofLittleEndian rest) / 256 = ofLittleEndian rest := by omega
    rw [List.length_cons, littleEndian, ofLittleEndian, hmod, hdiv, ih]

theorem ofLittleEndian_append (front back : Bytes) : ofLittleEndian (front ++ back) =
    ofLittleEndian front + 256 ^ front.length * ofLittleEndian back := by
  induction front with
  | nil => simp [ofLittleEndian]
  | cons b front ih =>
    rw [List.cons_append, ofLittleEndian, ih, ofLittleEndian, List.length_cons]
    ring

@[simp] theorem length_bigEndian (width value : Nat) : (bigEndian width value).length = width := by
  simp [bigEndian]

theorem ofBigEndian_reverse (data : Bytes) : ofBigEndian data.reverse = ofLittleEndian data := by
  induction data with
  | nil => rfl
  | cons b rest ih =>
    rw [ofBigEndian] at ih
    rw [ofBigEndian, List.reverse_cons, List.foldl_append, ih, ofLittleEndian, Nat.add_comm]
    rfl

theorem ofBigEndian_cons (b : UInt8) (rest : Bytes) :
    ofBigEndian (b :: rest) = b.toNat * 256 ^ rest.length + ofBigEndian rest := by
  have hcons := ofBigEndian_reverse (rest.reverse ++ [b])
  have hrest := ofBigEndian_reverse rest.reverse
  rw [List.reverse_append, List.reverse_reverse, List.reverse_singleton,
    List.singleton_append] at hcons
  rw [List.reverse_reverse] at hrest
  rw [hcons, hrest, ofLittleEndian_append, List.length_reverse]
  simp only [ofLittleEndian]
  ring

theorem ofBigEndian_bigEndian {width value : Nat} (h : value < 256 ^ width) :
    ofBigEndian (bigEndian width value) = value := by
  rw [bigEndian, ofBigEndian_reverse, ofLittleEndian_littleEndian, Nat.mod_eq_of_lt h]

theorem bigEndian_ofBigEndian {width : Nat} {data : Bytes} (h : data.length = width) :
    bigEndian width (ofBigEndian data) = data := by
  subst h
  rw [bigEndian, ← data.reverse_reverse, ofBigEndian_reverse, List.length_reverse,
    littleEndian_ofLittleEndian]

/-! ## Compact integers -/

namespace Encode

/-- A number as a compact integer, in any width that holds it. -/
inductive Spells : Nat → Bytes → Prop
  | byte (n : UInt8) (h : n < 0xfd) : Spells n.toNat [n]
  | short (n : UInt16) : Spells n.toNat (0xfd :: u16 n)
  | word (n : UInt32) : Spells n.toNat (0xfe :: u32 n)
  | long (n : UInt64) : Spells n.toNat (0xff :: u64 n)

theorem Spells.lt {n : Nat} {data : Bytes} (h : Spells n data) : n < UInt64.size := by
  cases h with
  | byte n => exact Nat.lt_trans n.toNat_lt (by decide)
  | short n => exact Nat.lt_trans n.toNat_lt (by decide)
  | word n => exact Nat.lt_trans n.toNat_lt (by decide)
  | long n => exact n.toNat_lt

theorem Spells.ne_nil {n : Nat} {data : Bytes} (h : Spells n data) : data ≠ [] := by
  cases h <;> exact List.cons_ne_nil _ _

/-- The writer's choice is one of the widths. -/
theorem spells_compact (n : UInt64) : Spells n.toNat (compact n) := by
  unfold compact
  split_ifs with hbyte hshort hword
  · have hlt := UInt64.lt_iff_toNat_lt.1 hbyte
    have hn : n.toUInt8.toNat = n.toNat := by
      rw [UInt64.toNat_toUInt8]
      exact Nat.mod_eq_of_lt (Nat.lt_trans hlt (by decide))
    have hspells := Spells.byte n.toUInt8 (by rwa [UInt8.lt_iff_toNat_lt, hn])
    rwa [hn] at hspells
  · have hlt : n.toNat < 2 ^ 16 := Nat.lt_succ_of_le (UInt64.le_iff_toNat_le.1 hshort)
    have hspells := Spells.short n.toUInt16
    rwa [UInt64.toNat_toUInt16, Nat.mod_eq_of_lt hlt] at hspells
  · have hlt : n.toNat < 2 ^ 32 := Nat.lt_succ_of_le (UInt64.le_iff_toNat_le.1 hword)
    have hspells := Spells.word n.toUInt32
    rwa [UInt64.toNat_toUInt32, Nat.mod_eq_of_lt hlt] at hspells
  · exact Spells.long n

theorem spells_count {n : Nat} (h : n < UInt64.size) : Spells n (count n) := by
  have hspells := spells_compact (UInt64.ofNat n)
  rwa [UInt64.toNat_ofNat_of_lt' h] at hspells

end Encode

/-! ## Rows of values -/

namespace Encode

theorem count_ne_nil (n : Nat) : count n ≠ [] := (spells_compact (UInt64.ofNat n)).ne_nil

theorem sized_ne_nil (data : Bytes) : sized data ≠ [] :=
  List.append_ne_nil_of_left_ne_nil (count_ne_nil data.length) _

/-- A byte string behind its length, in any width. -/
def SpellsSized (payload data : Bytes) : Prop :=
  ∃ size, Spells payload.length size ∧ data = size ++ payload

theorem SpellsSized.ne_nil {payload data : Bytes} (h : SpellsSized payload data) : data ≠ [] := by
  obtain ⟨size, hsize, rfl⟩ := h
  exact List.append_ne_nil_of_left_ne_nil hsize.ne_nil _

theorem spellsSized {data : Bytes} (h : data.length < UInt64.size) :
    SpellsSized data (sized data) := ⟨_, spells_count h, rfl⟩

variable {α : Type} {R : α → Bytes → Prop} {xs : List α} {data : Bytes}

/-- The values are written one behind the other, each in one of its ways. -/
inductive Row (R : α → Bytes → Prop) : List α → Bytes → Prop
  | nil : Row R [] []
  | cons {x : α} {xs : List α} {data more : Bytes} :
    R x data → Row R xs more → Row R (x :: xs) (data ++ more)

theorem row_flatMap {write : α → Bytes} (h : ∀ x ∈ xs, R x (write x)) :
    Row R xs (xs.flatMap write) := by
  induction xs with
  | nil => exact .nil
  | cons x xs ih =>
    exact .cons (h x List.mem_cons_self) (ih fun y hy => h y (List.mem_cons_of_mem x hy))

/-- Values that are written in at least one byte each are no more than the bytes. -/
theorem Row.length_le (hne : ∀ {x data}, R x data → data ≠ []) (h : Row R xs data) :
    xs.length ≤ data.length := by
  induction h with
  | nil => exact Nat.le_refl 0
  | cons hx _ ih =>
    have hpos := List.length_pos_of_ne_nil (hne hx)
    rw [List.length_cons, List.length_append]
    omega

theorem Row.mono {R' : α → Bytes → Prop} (h : Row R xs data)
    (hR : ∀ {x data}, R x data → R' x data) : Row R' xs data := by
  induction h with
  | nil => exact .nil
  | cons hx _ ih => exact .cons (hR hx) ih

/-- A count in any width, and a row of that many values. -/
def SpellsCounted (R : α → Bytes → Prop) (xs : List α) (data : Bytes) : Prop :=
  ∃ size row, Spells xs.length size ∧ Row R xs row ∧ data = size ++ row

theorem SpellsCounted.ne_nil (h : SpellsCounted R xs data) : data ≠ [] := by
  obtain ⟨size, row, hsize, -, rfl⟩ := h
  exact List.append_ne_nil_of_left_ne_nil hsize.ne_nil _

theorem SpellsCounted.mono {R' : α → Bytes → Prop} (h : SpellsCounted R xs data)
    (hR : ∀ {x data}, R x data → R' x data) : SpellsCounted R' xs data := by
  obtain ⟨size, row, hsize, hrow, rfl⟩ := h
  exact ⟨size, row, hsize, hrow.mono hR, rfl⟩

theorem spellsCounted {write : α → Bytes} (hlen : xs.length < UInt64.size)
    (h : ∀ x ∈ xs, R x (write x)) :
    SpellsCounted R xs (count xs.length ++ xs.flatMap write) :=
  ⟨_, _, spells_count hlen, row_flatMap h, rfl⟩

end Encode

/-- Values that are written in at least one byte each are no more than the bytes. -/
theorem length_le_length_flatMap {α : Type} {write : α → Bytes} {xs : List α}
    (h : ∀ x ∈ xs, write x ≠ []) : xs.length ≤ (xs.flatMap write).length := by
  induction xs with
  | nil => exact Nat.le_refl 0
  | cons x xs ih =>
    have hx := List.length_pos_of_ne_nil (h x List.mem_cons_self)
    have hxs := ih fun y hy => h y (List.mem_cons_of_mem x hy)
    rw [List.flatMap_cons, List.length_append, List.length_cons]
    omega

theorem length_le_of_mem {α : Type} (write : α → Bytes) {xs : List α} {x : α} (h : x ∈ xs) :
    (write x).length ≤ (xs.flatMap write).length := by
  rw [List.flatMap_def]
  exact (List.sublist_flatten_of_mem (List.mem_map_of_mem h)).length_le

/-! ## Passing bytes -/

namespace Cursor

/-- The bytes stand between the cursors. -/
def Passes (c : Cursor) (data : Bytes) (c' : Cursor) : Prop :=
  c.rest = data ++ c'.rest ∧ c'.position = c.position + data.length

variable {c c' : Cursor} {data more : Bytes}

theorem passes_nil : c.Passes [] c' ↔ c = c' := by
  rcases c with ⟨p, r⟩
  rcases c' with ⟨p', r'⟩
  simp [Passes, and_comm, eq_comm]

theorem passes_append :
    c.Passes (data ++ more) c' ↔ ∃ c₁, c.Passes data c₁ ∧ c₁.Passes more c' := by
  constructor
  · intro h
    obtain ⟨hrest, hpos⟩ := h
    refine ⟨⟨c.position + data.length, more ++ c'.rest⟩, ⟨by simpa using hrest, rfl⟩, rfl, ?_⟩
    simpa [Nat.add_assoc] using hpos
  · intro h
    obtain ⟨c₁, ⟨hrest, hpos⟩, hrest', hpos'⟩ := h
    refine ⟨by rw [hrest, hrest', List.append_assoc], ?_⟩
    rw [hpos', hpos, List.length_append, Nat.add_assoc]

theorem passes_cons {b : UInt8} :
    c.Passes (b :: data) c' ↔ ∃ c₁, c.Passes [b] c₁ ∧ c₁.Passes data c' := by
  rw [← List.singleton_append, passes_append]

end Cursor

/-! ## Reads -/

namespace Decoder

open Exchange Cursor

variable {α : Type} {c c' : Cursor}

theorem gives_get {x : Cursor} : Gives get c x c' ↔ x = c ∧ c' = c := by
  change (Except.ok c, c) = (Except.ok x, c') ↔ _
  simp [eq_comm]

theorem gives_bytes {n : Nat} {data : Bytes} :
    Gives (bytes n) c data c' ↔ data.length = n ∧ c.Passes data c' := by
  rcases c' with ⟨p', r'⟩
  change (if n ≤ c.remaining then _ else _) = _ ↔ _
  split
  · next hn =>
    simp only [Prod.mk.injEq, Except.ok.injEq, advance, Cursor.mk.injEq, Passes, remaining] at hn ⊢
    constructor
    · intro h
      obtain ⟨rfl, rfl, rfl⟩ := h
      simp [hn]
    · intro h
      obtain ⟨rfl, hrest, rfl⟩ := h
      simp [hrest]
  · next hn =>
    simp only [malformed, Prod.mk.injEq, reduceCtorEq, false_and, false_iff]
    intro h
    obtain ⟨rfl, hrest, -⟩ := h
    simp [remaining, hrest] at hn

theorem gives_u8 {b : UInt8} : Gives u8 c b c' ↔ c.Passes [b] c' := by
  rcases c with ⟨p, _ | ⟨x, rest⟩⟩
  · change (malformed _, _) = _ ↔ _
    simp [malformed, Passes]
  · rcases c' with ⟨p', r'⟩
    change (Except.ok x, _) = _ ↔ _
    simp [Passes, eq_comm, and_comm, and_assoc]

/-- A word of `n` bytes is read from the bytes that write it. -/
theorem gives_littleEndian {n : Nat} {word : Nat → α} {value : α → Nat}
    (hword : ∀ m, m < 256 ^ n → value (word m) = m) (hvalue : ∀ a, word (value a) = a)
    (hlt : ∀ a, value a < 256 ^ n) {a : α} :
    Gives (do return word (ofLittleEndian (← bytes n))) c a c' ↔
      c.Passes (littleEndian n (value a)) c' := by
  simp only [gives_bind, gives_pure, gives_bytes]
  constructor
  · intro h
    obtain ⟨data, c₁, ⟨rfl, hpass⟩, rfl, rfl⟩ := h
    rwa [hword _ (ofLittleEndian_lt data), littleEndian_ofLittleEndian]
  · intro hpass
    refine ⟨_, c', ⟨length_littleEndian .., hpass⟩, ?_, rfl⟩
    rw [ofLittleEndian_littleEndian, Nat.mod_eq_of_lt (hlt a), hvalue]

theorem gives_u16 {n : UInt16} : Gives u16 c n c' ↔ c.Passes (Encode.u16 n) c' :=
  gives_littleEndian (fun _ h => UInt16.toNat_ofNat_of_lt' h) (fun _ => UInt16.ofNat_toNat)
    UInt16.toNat_lt

theorem gives_u32 {n : UInt32} : Gives u32 c n c' ↔ c.Passes (Encode.u32 n) c' :=
  gives_littleEndian (fun _ h => UInt32.toNat_ofNat_of_lt' h) (fun _ => UInt32.ofNat_toNat)
    UInt32.toNat_lt

theorem gives_u64 {n : UInt64} : Gives u64 c n c' ↔ c.Passes (Encode.u64 n) c' :=
  gives_littleEndian (fun _ h => UInt64.toNat_ofNat_of_lt' h) (fun _ => UInt64.ofNat_toNat)
    UInt64.toNat_lt

/-! ## Counts -/

theorem gives_compact_iff {n : UInt64} :
    Gives compact c n c' ↔ ∃ data, Encode.Spells n.toNat data ∧ c.Passes data c' := by
  constructor
  · intro h
    obtain ⟨b, c₁, hb, h⟩ := gives_bind.1 h
    rw [gives_u8] at hb
    split at h
    · obtain ⟨m, c₂, hm, h⟩ := gives_bind.1 h
      obtain ⟨rfl, rfl⟩ := gives_pure.1 h
      rw [UInt16.toNat_toUInt64]
      exact ⟨_, .short m, passes_cons.2 ⟨c₁, hb, gives_u16.1 hm⟩⟩
    · obtain ⟨m, c₂, hm, h⟩ := gives_bind.1 h
      obtain ⟨rfl, rfl⟩ := gives_pure.1 h
      rw [UInt32.toNat_toUInt64]
      exact ⟨_, .word m, passes_cons.2 ⟨c₁, hb, gives_u32.1 hm⟩⟩
    · exact ⟨_, .long n, passes_cons.2 ⟨c₁, hb, gives_u64.1 h⟩⟩
    · next hshort hword hlong =>
      obtain ⟨rfl, rfl⟩ := gives_pure.1 h
      rw [UInt8.toNat_toUInt64]
      refine ⟨_, .byte b ?_, hb⟩
      simp only [← UInt8.toNat_inj] at hshort hword hlong
      have hlt := b.toNat_lt
      simp only [UInt8.lt_iff_toNat_lt]
      simp at hshort hword hlong ⊢
      omega
  · intro h
    obtain ⟨data, hspells, hpass⟩ := h
    generalize hn : n.toNat = m at hspells
    cases hspells with
    | byte b hb =>
      refine gives_bind.2 ⟨b, c', gives_u8.2 hpass, ?_⟩
      split
      · exact absurd hb (by decide)
      · exact absurd hb (by decide)
      · exact absurd hb (by decide)
      · refine gives_pure.2 ⟨?_, rfl⟩
        rw [← UInt64.toNat_inj, hn, UInt8.toNat_toUInt64]
    | short m =>
      obtain ⟨c₁, hmark, hpass⟩ := passes_cons.1 hpass
      refine gives_bind.2 ⟨0xfd, c₁, gives_u8.2 hmark, ?_⟩
      refine gives_bind.2 ⟨m, c', gives_u16.2 hpass, gives_pure.2 ⟨?_, rfl⟩⟩
      rw [← UInt64.toNat_inj, hn, UInt16.toNat_toUInt64]
    | word m =>
      obtain ⟨c₁, hmark, hpass⟩ := passes_cons.1 hpass
      refine gives_bind.2 ⟨0xfe, c₁, gives_u8.2 hmark, ?_⟩
      refine gives_bind.2 ⟨m, c', gives_u32.2 hpass, gives_pure.2 ⟨?_, rfl⟩⟩
      rw [← UInt64.toNat_inj, hn, UInt32.toNat_toUInt64]
    | long m =>
      obtain rfl := UInt64.toNat_inj.1 hn
      obtain ⟨c₁, hmark, hpass⟩ := passes_cons.1 hpass
      exact gives_bind.2 ⟨0xff, c₁, gives_u8.2 hmark, gives_u64.2 hpass⟩

theorem gives_compact {n : UInt64} (h : c.Passes (Encode.compact n) c') : Gives compact c n c' :=
  gives_compact_iff.2 ⟨_, Encode.spells_compact n, h⟩

/-- A count that stands before the cursor `c'` is accepted if as many bytes remain there. -/
theorem resultIn_length {n : UInt64} (h : c.Passes (Encode.compact n) c') :
    resultIn length c = (if n.toNat ≤ c'.remaining then .ok n.toNat
      else malformed (.lengthBeyond n c'.remaining), c') := by
  have hcompact : resultIn compact c = (.ok n, c') := gives_compact h
  have hget : resultIn (get : Decoder Cursor) c' = (.ok c', c') := rfl
  simp only [length, resultIn_bind, hcompact, hget]
  by_cases hle : n.toNat ≤ c'.remaining
  · rw [if_neg (Nat.not_lt.2 hle), if_pos hle]
    rfl
  · rw [if_pos (Nat.not_le.1 hle), if_neg hle]
    rfl

theorem gives_length_iff {n : Nat} :
    Gives length c n c' ↔
      (∃ data, Encode.Spells n data ∧ c.Passes data c') ∧ n ≤ c'.remaining := by
  constructor
  · intro h
    obtain ⟨word, c₁, hword, hcheck⟩ := gives_bind.1 h
    obtain ⟨_, _, hget, hrest⟩ := gives_bind.1 hcheck
    obtain ⟨rfl, rfl⟩ := gives_get.1 hget
    obtain ⟨hle, hrest⟩ := gives_unless.1 hrest
    obtain ⟨rfl, rfl⟩ := gives_pure.1 hrest
    exact ⟨gives_compact_iff.1 hword, Nat.not_lt.1 hle⟩
  · intro h
    obtain ⟨⟨data, hspells, hpass⟩, hle⟩ := h
    have hword : (UInt64.ofNat n).toNat = n := UInt64.toNat_ofNat_of_lt' hspells.lt
    refine gives_bind.2 ⟨UInt64.ofNat n, c', gives_compact_iff.2 ⟨data, ?_, hpass⟩, ?_⟩
    · rwa [hword]
    refine gives_bind.2 ⟨c', c', gives_get.2 ⟨rfl, rfl⟩, gives_unless.2 ⟨?_, ?_⟩⟩
    · rwa [hword, Nat.not_lt]
    · exact gives_pure.2 ⟨hword, rfl⟩

/-! ## What is recognized -/

/-- The read takes the bytes that spell a value, and whatever stands behind them is no matter. -/
def Recognizes (read : Decoder α) (R : α → Bytes → Prop) : Prop :=
  ∀ {c : Cursor} {a : α} {c' : Cursor}, Gives read c a c' ↔ ∃ data, R a data ∧ c.Passes data c'

theorem recognizes_sized : Recognizes sized Encode.SpellsSized := by
  intro c payload c'
  constructor
  · intro h
    obtain ⟨n, c₁, hlength, h⟩ := gives_bind.1 h
    obtain ⟨rfl, hpayload⟩ := gives_bytes.1 h
    obtain ⟨⟨size, hsize, hpass⟩, -⟩ := gives_length_iff.1 hlength
    exact ⟨_, ⟨size, hsize, rfl⟩, passes_append.2 ⟨c₁, hpass, hpayload⟩⟩
  · intro h
    obtain ⟨_, ⟨size, hsize, rfl⟩, hpass⟩ := h
    obtain ⟨c₁, hcount, hpayload⟩ := passes_append.1 hpass
    have hle : payload.length ≤ c₁.remaining := by simp [remaining, hpayload.1]
    exact gives_bind.2 ⟨payload.length, c₁, gives_length_iff.2 ⟨⟨size, hsize, hcount⟩, hle⟩,
      gives_bytes.2 ⟨rfl, hpayload⟩⟩

theorem gives_sized {data : Bytes} (hlen : data.length < UInt64.size)
    (h : c.Passes (Encode.sized data) c') : Gives sized c data c' :=
  recognizes_sized.2 ⟨_, Encode.spellsSized hlen, h⟩

variable {read : Decoder α} {R : α → Bytes → Prop} {data : Bytes} {a : α}

theorem recognizes_repeated (hread : Recognizes read R) (n : Nat) :
    Recognizes (repeated read n) fun xs data => xs.length = n ∧ Encode.Row R xs data := by
  intro c xs c'
  induction n generalizing c xs with
  | zero =>
    constructor
    · intro h
      obtain ⟨rfl, rfl⟩ := gives_pure.1 h
      exact ⟨[], ⟨rfl, .nil⟩, passes_nil.2 rfl⟩
    · intro h
      obtain ⟨data, ⟨hlen, hrow⟩, hpass⟩ := h
      obtain rfl := List.length_eq_zero_iff.1 hlen
      cases hrow
      exact gives_pure.2 ⟨rfl, passes_nil.1 hpass⟩
  | succ n ih =>
    constructor
    · intro h
      obtain ⟨x, c₁, hx, h⟩ := gives_bind.1 h
      obtain ⟨rest, c₂, hrest, h⟩ := gives_bind.1 h
      obtain ⟨rfl, rfl⟩ := gives_pure.1 h
      obtain ⟨data, hdata, hpass⟩ := hread.1 hx
      obtain ⟨more, ⟨rfl, hrow⟩, hmore⟩ := ih.1 hrest
      exact ⟨_, ⟨rfl, .cons hdata hrow⟩, passes_append.2 ⟨c₁, hpass, hmore⟩⟩
    · intro h
      obtain ⟨data, ⟨hlen, hrow⟩, hpass⟩ := h
      cases hrow with
      | nil => cases hlen
      | @cons x rest first more hx hrow =>
        obtain ⟨c₁, hfirst, hmore⟩ := passes_append.1 hpass
        refine gives_bind.2 ⟨x, c₁, hread.2 ⟨first, hx, hfirst⟩, ?_⟩
        refine gives_bind.2 ⟨rest, c', ih.2 ⟨more, ⟨Nat.succ.inj hlen, hrow⟩, hmore⟩, ?_⟩
        exact gives_pure.2 ⟨rfl, rfl⟩

/-- Values that take bytes are at most as many as the bytes, so the count is never refused. -/
theorem recognizes_counted (hread : Recognizes read R) (hne : ∀ {x data}, R x data → data ≠ []) :
    Recognizes (counted read) (Encode.SpellsCounted R) := by
  intro c xs c'
  constructor
  · intro h
    obtain ⟨n, c₁, hlength, h⟩ := gives_bind.1 h
    obtain ⟨row, ⟨rfl, hrow⟩, hpass⟩ := (recognizes_repeated hread n).1 h
    obtain ⟨⟨size, hsize, hcount⟩, -⟩ := gives_length_iff.1 hlength
    exact ⟨_, ⟨size, row, hsize, hrow, rfl⟩, passes_append.2 ⟨c₁, hcount, hpass⟩⟩
  · intro h
    obtain ⟨_, ⟨size, row, hsize, hrow, rfl⟩, hpass⟩ := h
    obtain ⟨c₁, hcount, hpass⟩ := passes_append.1 hpass
    have hle : xs.length ≤ c₁.remaining := by
      rw [remaining, hpass.1, List.length_append]
      exact Nat.le_add_right_of_le (hrow.length_le hne)
    exact gives_bind.2 ⟨xs.length, c₁, gives_length_iff.2 ⟨⟨size, hsize, hcount⟩, hle⟩,
      (recognizes_repeated hread _).2 ⟨row, ⟨rfl, hrow⟩, hpass⟩⟩

theorem exactly_eq_ok {n : Nat} {block : Vector UInt8 n} :
    exactly n data = .ok block ↔ data = block.toList := by
  rw [exactly, Outcome.need_eq_ok, block?_eq_some]

theorem exactly_toList {n : Nat} (block : Vector UInt8 n) : exactly n block.toList = .ok block :=
  exactly_eq_ok.2 rfl

theorem gives_block {n : Nat} {block : Vector UInt8 n} :
    Gives (Decoder.block n) c block c' ↔ c.Passes block.toList c' := by
  constructor
  · intro h
    obtain ⟨data, c₁, hdata, h⟩ := gives_bind.1 h
    obtain ⟨hblock, rfl⟩ := gives_lift.1 h
    obtain rfl := exactly_eq_ok.1 hblock
    exact (gives_bytes.1 hdata).2
  · intro h
    refine gives_bind.2 ⟨block.toList, c', gives_bytes.2 ⟨block.length_toList, h⟩, ?_⟩
    exact gives_lift.2 ⟨exactly_toList block, rfl⟩

/-! ## Whole byte strings -/

theorem resultIn_finish (c : Cursor) : resultIn finish c =
    (if c.rest = [] then .ok () else malformed (.trailing c.remaining c.position), c) := by
  have hrun : resultIn finish c = resultIn (if c.isAtEnd = true then pure ()
      else throw (.malformed (.trailing c.remaining c.position))) c := rfl
  rw [hrun, isAtEnd]
  by_cases hend : c.rest = []
  · rw [if_pos (List.isEmpty_iff.2 hend), if_pos hend, resultIn_pure]
  · rw [if_neg (mt List.isEmpty_iff.1 hend), if_neg hend, resultIn_throw]
    rfl

theorem gives_finish {u : Unit} : Gives finish c u c' ↔ c.rest = [] ∧ c = c' := by
  rw [Gives, resultIn_finish]
  by_cases hend : c.rest = []
  · simp [hend]
  · simp [hend, malformed]

theorem decodeAll_eq_ok_iff :
    decodeAll read data = .ok a ↔ ∃ p, Gives read (start data) a ⟨p, []⟩ := by
  have hall : decodeAll read data = .ok a ↔
      ∃ c, Gives (do let a ← read; finish; return a) (start data) a c := by
    constructor
    · exact fun h => ⟨_, Prod.ext h rfl⟩
    · intro h
      obtain ⟨c, h⟩ := h
      exact congrArg Prod.fst h
  rw [hall]
  constructor
  · intro h
    obtain ⟨c, h⟩ := h
    obtain ⟨_, ⟨p, rest⟩, hread, hrest⟩ := gives_bind.1 h
    obtain ⟨_, _, hfinish, hrest⟩ := gives_bind.1 hrest
    obtain ⟨rfl, rfl⟩ := gives_pure.1 hrest
    obtain ⟨rfl, -⟩ := gives_finish.1 hfinish
    exact ⟨p, hread⟩
  · intro h
    obtain ⟨p, h⟩ := h
    exact ⟨_, gives_bind.2 ⟨a, _, h, gives_bind.2 ⟨⟨⟩, _, rfl, gives_pure.2 ⟨rfl, rfl⟩⟩⟩⟩

theorem decodeAll_eq_ok {p : Nat} (h : Gives read (start data) a ⟨p, []⟩) :
    decodeAll read data = .ok a := decodeAll_eq_ok_iff.2 ⟨p, h⟩

/-- A read that fails makes the whole fail. -/
theorem decodeAll_eq_error {fault : Fault} (h : resultIn read (start data) = (.error fault, c)) :
    decodeAll read data = .error fault := by
  change (resultIn (read >>= _) (start data)).1 = _
  rw [resultIn_bind, h]

namespace Recognizes

/-- A byte string is read as a value exactly if it spells it. -/
theorem decodeAll_eq_ok (h : Recognizes read R) : decodeAll read data = .ok a ↔ R a data := by
  rw [decodeAll_eq_ok_iff]
  constructor
  · intro hread
    obtain ⟨p, hread⟩ := hread
    obtain ⟨front, hfront, hrest, -⟩ := h.1 hread
    have heq : data = front := hrest.trans (List.append_nil front)
    rwa [heq]
  · intro hdata
    exact ⟨0 + data.length, h.2 ⟨data, hdata, (List.append_nil data).symm, rfl⟩⟩

/-- A byte string has at most one front that spells a value. -/
theorem front_unique (h : Recognizes read R) {b : α} {data' more more' : Bytes} (ha : R a data)
    (hb : R b data') (heq : data ++ more = data' ++ more') :
    a = b ∧ data = data' ∧ more = more' := by
  have hfirst : Gives read (start (data ++ more)) a ⟨0 + data.length, more⟩ :=
    h.2 ⟨data, ha, rfl, rfl⟩
  have hsecond : Gives read (start (data ++ more)) b ⟨0 + data'.length, more'⟩ :=
    h.2 ⟨data', hb, heq, rfl⟩
  obtain ⟨hab, hcursor⟩ := Prod.mk.inj (hfirst.symm.trans hsecond)
  obtain rfl : more = more' := congrArg Cursor.rest hcursor
  exact ⟨Except.ok.inj hab, List.append_cancel_right heq, rfl⟩

/-- Bytes behind a value are refused. -/
theorem decodeAll_append (h : Recognizes read R) {more : Bytes} (hdata : R a data)
    (hmore : more ≠ []) :
    decodeAll read (data ++ more) = malformed (.trailing more.length data.length) := by
  have hread : Gives read (start (data ++ more)) a ⟨0 + data.length, more⟩ :=
    h.2 ⟨data, hdata, rfl, rfl⟩
  change (resultIn (read >>= _) (start (data ++ more))).1 = _
  rw [resultIn_bind_of_gives hread, resultIn_bind, resultIn_finish, if_neg hmore, Nat.zero_add]
  rfl

end Recognizes

/-- What is read wherever it is written is read from its own bytes. -/
theorem decodeAll_of_passes (h : ∀ c c' : Cursor, c.Passes data c' → Gives read c a c') :
    decodeAll read data = .ok a := by
  refine decodeAll_eq_ok (p := data.length) (h _ _ ⟨?_, ?_⟩)
  · simp [start]
  · simp [start]

end Decoder

end Wager
