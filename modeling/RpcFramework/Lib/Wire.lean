import RpcFramework.Lib.Bytes
import Mathlib.Data.Option.Basic
import Mathlib.Tactic.Linarith

/-!
# The protocol-buffer wire format

A message travels as a sequence of records, each a tag (field number and wire
type) followed by a payload whose extent the wire type alone determines.  Cutting
a byte string into records therefore needs no schema: it either fails as a whole,
on malformed bytes, or yields the list of records, which a schema then folds over
a default message, skipping the field numbers it does not know.

Nothing on the wire names the message type, so bytes written with one schema can
be read with another.  `Codec.decode_encode` is the law for that: reading `m`'s
bytes with the codec `d` folds `d`'s schema over `m`'s records.

## Main definitions

* `Wire.encodeVarint`, `Wire.decodeVarint` — base-128 integers.
* `Wire.Field` — a record; `Wire.encodeFields`, `Wire.decodeFields`.
* `Wire.Codec` — a schema: the records of a message and how a record is merged.
* `Wire.int64Field`, `Wire.stringField`, … — singular fields of the proto3 rules,
  which omit a field that holds its default.

## Main results

* `Wire.decodeFields_encodeFields` — cutting written records apart gives them back.
* `Wire.Codec.decode_encode` — the law above.
* `Wire.Codec.decode_map` — schemas that merge alike read alike.
-/

namespace Wire

/-! ### Varints -/

/-- The base-128 form of `n`, least significant group first, in at most `fuel` bytes. -/
def encodeVarintAux : ℕ → ℕ → Bytes
  | 0, _ => []
  | fuel + 1, n =>
      if n < 128 then [UInt8.ofNat n]
      else UInt8.ofNat (n % 128 + 128) :: encodeVarintAux fuel (n / 128)

/-- A varint has at most ten bytes. -/
def encodeVarint (n : ℕ) : Bytes := encodeVarintAux 10 n

/-- Read a base-128 integer of at most `fuel` bytes off the front. -/
def decodeVarintAux : ℕ → Bytes → Option (ℕ × Bytes)
  | 0, _ => none
  | _ + 1, [] => none
  | fuel + 1, b :: bs =>
      if b.toNat < 128 then some (b.toNat, bs)
      else (decodeVarintAux fuel bs).map fun p => (b.toNat - 128 + 128 * p.1, p.2)

/-- A 64-bit varint; bits past the sixty-fourth are dropped. -/
def decodeVarint (bs : Bytes) : Option (ℕ × Bytes) :=
  (decodeVarintAux 10 bs).map fun p => (p.1 % 2 ^ 64, p.2)

/-- A tag is a varint of at most five bytes, taken modulo `2 ^ 32`. -/
def decodeTag (bs : Bytes) : Option (ℕ × Bytes) :=
  (decodeVarintAux 5 bs).map fun p => (p.1 % 2 ^ 32, p.2)

/-- The largest payload of a length-delimited record that a reader accepts. -/
def maxLength : ℕ := 2 ^ 31 - 1 - 16

/-- The length of a length-delimited record. -/
def decodeLength (bs : Bytes) : Option (ℕ × Bytes) :=
  (decodeVarintAux 5 bs).filter fun p => p.1 ≤ maxLength

theorem length_encodeVarintAux_pos (fuel n : ℕ) : 0 < (encodeVarintAux (fuel + 1) n).length := by
  rw [encodeVarintAux]
  split <;> simp

/-- Reading back a number that needs at most `groups + 1` bytes, with whatever
follows it, as long as neither side runs out of fuel. -/
theorem decodeVarintAux_encodeVarintAux (rest : Bytes) : ∀ (groups fuel k n : ℕ),
    n < 128 ^ (groups + 1) → groups < fuel → groups < k →
      decodeVarintAux fuel (encodeVarintAux k n ++ rest) = some (n, rest) := by
  intro groups
  induction groups with
  | zero =>
    intro fuel k n hn hf hk
    obtain ⟨f, rfl⟩ : ∃ f, fuel = f + 1 := ⟨fuel - 1, by omega⟩
    obtain ⟨j, rfl⟩ : ∃ j, k = j + 1 := ⟨k - 1, by omega⟩
    have hn' : n < 128 := by simpa using hn
    have hb : (UInt8.ofNat n).toNat = n := by rw [UInt8.toNat_ofNat']; omega
    simp [encodeVarintAux, decodeVarintAux, hn', hb]
  | succ g ih =>
    intro fuel k n hn hf hk
    obtain ⟨f, rfl⟩ : ∃ f, fuel = f + 1 := ⟨fuel - 1, by omega⟩
    obtain ⟨j, rfl⟩ : ∃ j, k = j + 1 := ⟨k - 1, by omega⟩
    by_cases h : n < 128
    · have hb : (UInt8.ofNat n).toNat = n := by rw [UInt8.toNat_ofNat']; omega
      simp [encodeVarintAux, decodeVarintAux, h, hb]
    · -- a continuation byte: the rest of the number is `n / 128`
      have hb : (UInt8.ofNat (n % 128 + 128)).toNat = n % 128 + 128 := by
        rw [UInt8.toNat_ofNat']; omega
      have hdiv : n / 128 < 128 ^ (g + 1) := by
        rw [pow_succ] at hn
        exact Nat.div_lt_of_lt_mul (by rw [Nat.mul_comm]; exact hn)
      have hrec := ih f j (n / 128) hdiv (by omega) (by omega)
      rw [encodeVarintAux, if_neg h, List.cons_append, decodeVarintAux, hb, if_neg (by omega),
        hrec]
      simp only [Option.map_some, Option.some.injEq, Prod.mk.injEq, and_true]
      omega

/-- A varint reads back, for every 64-bit value. -/
theorem decodeVarint_encodeVarint {n : ℕ} (hn : n < 2 ^ 64) (rest : Bytes) :
    decodeVarint (encodeVarint n ++ rest) = some (n, rest) := by
  have h : n < 128 ^ (9 + 1) := lt_trans hn (by norm_num)
  rw [decodeVarint, encodeVarint, decodeVarintAux_encodeVarintAux rest 9 10 10 n h (by omega)
    (by omega)]
  simp only [Option.map_some, Nat.mod_eq_of_lt hn]

theorem decodeTag_encodeVarint {n : ℕ} (hn : n < 2 ^ 32) (rest : Bytes) :
    decodeTag (encodeVarint n ++ rest) = some (n, rest) := by
  have h : n < 128 ^ (4 + 1) := lt_trans hn (by norm_num)
  rw [decodeTag, encodeVarint, decodeVarintAux_encodeVarintAux rest 4 5 10 n h (by omega)
    (by omega)]
  simp only [Option.map_some, Nat.mod_eq_of_lt hn]

theorem decodeLength_encodeVarint {n : ℕ} (hn : n ≤ maxLength) (rest : Bytes) :
    decodeLength (encodeVarint n ++ rest) = some (n, rest) := by
  have h : n < 128 ^ (4 + 1) := lt_of_le_of_lt hn (by norm_num [maxLength])
  rw [decodeLength, encodeVarint, decodeVarintAux_encodeVarintAux rest 4 5 10 n h (by omega)
    (by omega)]
  simp [Option.filter, hn]

/-! ### Records -/

/-- The payload of a record.  A group is skipped as a whole, so nothing of it is
kept. -/
inductive Value where
  | varint (n : ℕ)
  | fixed64 (bytes : Bytes)
  | lengthDelimited (bytes : Bytes)
  | group
  | fixed32 (bytes : Bytes)
  deriving DecidableEq, Repr

/-- A record: a field number and a payload. -/
structure Field where
  number : ℕ
  value : Value
  deriving DecidableEq, Repr

/-- The wire type of a payload. -/
def Value.wireType : Value → ℕ
  | .varint _ => 0
  | .fixed64 _ => 1
  | .lengthDelimited _ => 2
  | .group => 3
  | .fixed32 _ => 5

/-- The tag of a record with the given field number and wire type. -/
def encodeTag (number wireType : ℕ) : Bytes := encodeVarint (number * 8 + wireType)

/-- A record on the wire; a group is written empty. -/
def encodeField (f : Field) : Bytes :=
  encodeTag f.number f.value.wireType ++
    match f.value with
    | .varint n => encodeVarint n
    | .fixed64 bytes => bytes
    | .lengthDelimited bytes => encodeVarint bytes.length ++ bytes
    | .group => encodeTag f.number 4
    | .fixed32 bytes => bytes

/-- A sequence of records on the wire. -/
def encodeFields (fs : List Field) : Bytes := fs.flatMap encodeField

/-- Exactly `n` bytes off the front. -/
def takeExact (n : ℕ) (bs : Bytes) : Option (Bytes × Bytes) :=
  if n ≤ bs.length then some (bs.take n, bs.drop n) else none

/-- Skip the payload of wire type `wireType`, groups apart. -/
def skipScalar (wireType : ℕ) (bs : Bytes) : Option Bytes :=
  match wireType with
  | 0 => (decodeVarint bs).map Prod.snd
  | 1 => (takeExact 8 bs).map Prod.snd
  | 2 => (decodeLength bs).bind fun p => (takeExact p.1 p.2).map Prod.snd
  | 5 => (takeExact 4 bs).map Prod.snd
  | _ => none

/-- Skip to the end tag of the group of field `number`, nested groups included. -/
def skipGroup : ℕ → ℕ → Bytes → Option Bytes
  | 0, _, _ => none
  | fuel + 1, number, bs =>
      (decodeTag bs).bind fun p =>
        if p.1 / 8 = 0 then none
        else if p.1 % 8 = 4 then (if p.1 / 8 = number then some p.2 else none)
        else if p.1 % 8 = 3 then (skipGroup fuel (p.1 / 8) p.2).bind (skipGroup fuel number)
        else (skipScalar (p.1 % 8) p.2).bind (skipGroup fuel number)

/-- The payload of wire type `wireType` off the front. -/
def decodeValue (number wireType : ℕ) (bs : Bytes) : Option (Value × Bytes) :=
  match wireType with
  | 0 => (decodeVarint bs).map fun p => (.varint p.1, p.2)
  | 1 => (takeExact 8 bs).map fun p => (.fixed64 p.1, p.2)
  | 2 => (decodeLength bs).bind fun p =>
      (takeExact p.1 p.2).map fun q => (.lengthDelimited q.1, q.2)
  | 3 => (skipGroup bs.length number bs).map fun rest => (.group, rest)
  | 5 => (takeExact 4 bs).map fun p => (.fixed32 p.1, p.2)
  | _ => none

/-- One record off the front.  Field number zero is malformed. -/
def decodeField (bs : Bytes) : Option (Field × Bytes) :=
  (decodeTag bs).bind fun p =>
    if p.1 / 8 = 0 then none
    else (decodeValue (p.1 / 8) (p.1 % 8) p.2).map fun q => (⟨p.1 / 8, q.1⟩, q.2)

/-- Cut a byte string into records; `fuel` bounds their number. -/
def decodeFieldsAux : ℕ → Bytes → Option (List Field)
  | _, [] => some []
  | 0, _ :: _ => none
  | fuel + 1, b :: bs =>
      (decodeField (b :: bs)).bind fun p => (decodeFieldsAux fuel p.2).map (p.1 :: ·)

/-- Cut a byte string into records.  A record takes at least one byte. -/
def decodeFields (bs : Bytes) : Option (List Field) := decodeFieldsAux bs.length bs

/-- The record fits its wire type, the size of a length-delimited payload apart. -/
def Field.WellFormed (f : Field) : Prop :=
  0 < f.number ∧ f.number < 2 ^ 29 ∧
    match f.value with
    | .varint n => n < 2 ^ 64
    | .fixed64 bytes => bytes.length = 8
    | .lengthDelimited _ => True
    | .group => True
    | .fixed32 bytes => bytes.length = 4

theorem takeExact_append {n : ℕ} {bytes : Bytes} (h : bytes.length = n) (rest : Bytes) :
    takeExact n (bytes ++ rest) = some (bytes, rest) := by
  subst h
  simp [takeExact]

theorem length_encodeTag_pos (number wireType : ℕ) : 0 < (encodeTag number wireType).length :=
  length_encodeVarintAux_pos 9 _

theorem encodeField_ne_nil (f : Field) : encodeField f ≠ [] := by
  intro h
  have hlen := congrArg List.length h
  have hpos := length_encodeTag_pos f.number f.value.wireType
  simp only [encodeField, List.length_append, List.length_nil] at hlen
  omega

theorem decodeTag_encodeTag {number wireType : ℕ} (hn : number < 2 ^ 29) (hw : wireType < 8)
    (rest : Bytes) :
    decodeTag (encodeTag number wireType ++ rest) = some (number * 8 + wireType, rest) :=
  decodeTag_encodeVarint (by omega) rest

/-- **A record reads back**, with whatever follows it. -/
theorem decodeField_encodeField {f : Field} (h : f.WellFormed)
    (hlen : (encodeField f).length ≤ maxLength) (rest : Bytes) :
    decodeField (encodeField f ++ rest) = some (f, rest) := by
  obtain ⟨number, value⟩ := f
  obtain ⟨hpos, hlt, hval⟩ := h
  simp only at hpos hlt
  have hw : value.wireType < 8 := by cases value <;> simp [Value.wireType]
  have hnum : (number * 8 + value.wireType) / 8 = number := by omega
  have hty : (number * 8 + value.wireType) % 8 = value.wireType := by omega
  rw [decodeField, encodeField, List.append_assoc, decodeTag_encodeTag hlt hw]
  simp only [Option.bind_some, hnum, hty, if_neg (by omega : ¬ number = 0)]
  cases value with
  | varint n => simp [Value.wireType, decodeValue, decodeVarint_encodeVarint hval]
  | fixed64 bytes => simp [Value.wireType, decodeValue, takeExact_append hval]
  | lengthDelimited bytes =>
    have hbytes : bytes.length ≤ maxLength := by
      simp only [encodeField, List.length_append] at hlen
      omega
    simp [Value.wireType, decodeValue, decodeLength_encodeVarint hbytes, takeExact_append rfl]
  | group =>
    have hend : skipGroup (encodeTag number 4 ++ rest).length number (encodeTag number 4 ++ rest)
        = some rest := by
      obtain ⟨k, hk⟩ : ∃ k, (encodeTag number 4 ++ rest).length = k + 1 := by
        have := length_encodeTag_pos number 4
        exact ⟨(encodeTag number 4 ++ rest).length - 1, by rw [List.length_append]; omega⟩
      rw [hk, skipGroup, decodeTag_encodeTag hlt (by omega)]
      have h1 : (number * 8 + 4) / 8 = number := by omega
      have h2 : (number * 8 + 4) % 8 = 4 := by omega
      simp only [Option.bind_some, h1, h2, if_neg (by omega : ¬ number = 0), if_pos]
    simp only [Value.wireType, decodeValue, hend, Option.map_some]
  | fixed32 bytes => simp [Value.wireType, decodeValue, takeExact_append hval]

theorem encodeFields_cons (f : Field) (fs : List Field) :
    encodeFields (f :: fs) = encodeField f ++ encodeFields fs := rfl

@[simp] theorem encodeFields_eq_nil {fs : List Field} : encodeFields fs = [] ↔ fs = [] := by
  cases fs with
  | nil => simp [encodeFields]
  | cons f fs =>
    rw [encodeFields_cons, List.append_eq_nil_iff]
    simp [encodeField_ne_nil]

theorem decodeFieldsAux_encodeFields : ∀ (fs : List Field), (∀ f ∈ fs, f.WellFormed) →
    (encodeFields fs).length ≤ maxLength →
    ∀ fuel, fs.length ≤ fuel → decodeFieldsAux fuel (encodeFields fs) = some fs := by
  intro fs
  induction fs with
  | nil => intro _ _ fuel _; cases fuel <;> rfl
  | cons f fs ih =>
    intro h hlen fuel hfuel
    rw [encodeFields_cons, List.length_append] at hlen
    obtain ⟨k, rfl⟩ : ∃ k, fuel = k + 1 := ⟨fuel - 1, by simp at hfuel; omega⟩
    have hread := decodeField_encodeField (h f List.mem_cons_self) (by omega) (encodeFields fs)
    have hrest := ih (fun g hg => h g (List.mem_cons_of_mem _ hg)) (by omega) k
      (by simpa using hfuel)
    rw [encodeFields_cons]
    cases hbs : encodeField f ++ encodeFields fs with
    | nil => exact absurd (List.append_eq_nil_iff.mp hbs).1 (encodeField_ne_nil f)
    | cons b bs =>
      rw [decodeFieldsAux, ← hbs, hread]
      simp [hrest]

theorem length_le_length_encodeFields (fs : List Field) : fs.length ≤ (encodeFields fs).length := by
  induction fs with
  | nil => simp
  | cons f fs ih =>
    have hpos : 0 < (encodeField f).length := List.length_pos_iff.mpr (encodeField_ne_nil f)
    rw [encodeFields_cons, List.length_append, List.length_cons]
    omega

/-- **Cutting written records apart gives them back.** -/
theorem decodeFields_encodeFields {fs : List Field} (h : ∀ f ∈ fs, f.WellFormed)
    (hlen : (encodeFields fs).length ≤ maxLength) : decodeFields (encodeFields fs) = some fs :=
  decodeFieldsAux_encodeFields fs h hlen _ (length_le_length_encodeFields fs)

/-! ### Sizes

What is read is no longer than what it is read from, and what is written is not much
longer than what it says. -/

section Length

variable {fuel number wireType n : ℕ} {bs rest bytes : Bytes}

theorem length_decodeVarintAux (h : decodeVarintAux fuel bs = some (n, rest)) :
    rest.length < bs.length := by
  induction fuel generalizing bs n with
  | zero => simp [decodeVarintAux] at h
  | succ fuel ih =>
    cases bs with
    | nil => simp [decodeVarintAux] at h
    | cons b bs =>
      rw [decodeVarintAux] at h
      split at h
      · obtain ⟨-, rfl⟩ := Prod.mk.inj (Option.some.inj h)
        exact Nat.lt_succ_self _
      · obtain ⟨p, hp, heq⟩ := Option.map_eq_some_iff.mp h
        obtain ⟨-, rfl⟩ := Prod.mk.inj heq
        exact Nat.lt_succ_of_lt (ih hp)

theorem length_decodeVarint (h : decodeVarint bs = some (n, rest)) : rest.length < bs.length := by
  obtain ⟨p, hp, heq⟩ := Option.map_eq_some_iff.mp h
  obtain ⟨-, rfl⟩ := Prod.mk.inj heq
  exact length_decodeVarintAux hp

theorem length_decodeTag (h : decodeTag bs = some (n, rest)) : rest.length < bs.length := by
  obtain ⟨p, hp, heq⟩ := Option.map_eq_some_iff.mp h
  obtain ⟨-, rfl⟩ := Prod.mk.inj heq
  exact length_decodeVarintAux hp

theorem length_decodeLength (h : decodeLength bs = some (n, rest)) : rest.length < bs.length :=
  length_decodeVarintAux (Option.filter_eq_some_iff.mp h).1

theorem length_takeExact (h : takeExact n bs = some (bytes, rest)) :
    bytes.length ≤ bs.length ∧ rest.length ≤ bs.length := by
  unfold takeExact at h
  split at h
  · obtain ⟨rfl, rfl⟩ := Prod.mk.inj (Option.some.inj h)
    exact ⟨List.length_take_le' n bs, by rw [List.length_drop]; omega⟩
  · simp at h

theorem length_skipScalar (h : skipScalar wireType bs = some rest) : rest.length ≤ bs.length := by
  unfold skipScalar at h
  split at h
  · obtain ⟨p, hp, rfl⟩ := Option.map_eq_some_iff.mp h
    exact le_of_lt (length_decodeVarint hp)
  · obtain ⟨p, hp, rfl⟩ := Option.map_eq_some_iff.mp h
    exact (length_takeExact hp).2
  · obtain ⟨p, hp, hrest⟩ := Option.bind_eq_some_iff.mp h
    obtain ⟨q, hq, rfl⟩ := Option.map_eq_some_iff.mp hrest
    exact le_trans (length_takeExact hq).2 (le_of_lt (length_decodeLength hp))
  · obtain ⟨p, hp, rfl⟩ := Option.map_eq_some_iff.mp h
    exact (length_takeExact hp).2
  · simp at h

theorem length_skipGroup (h : skipGroup fuel number bs = some rest) : rest.length ≤ bs.length := by
  induction fuel generalizing number bs rest with
  | zero => simp [skipGroup] at h
  | succ fuel ih =>
    rw [skipGroup] at h
    obtain ⟨p, hp, h⟩ := Option.bind_eq_some_iff.mp h
    have hlt := length_decodeTag hp
    split at h
    · simp at h
    · split at h
      · split at h
        · obtain rfl := Option.some.inj h
          exact le_of_lt hlt
        · simp at h
      · split at h
        · obtain ⟨inner, hinner, h⟩ := Option.bind_eq_some_iff.mp h
          have h1 := ih hinner
          have h2 := ih h
          omega
        · obtain ⟨inner, hinner, h⟩ := Option.bind_eq_some_iff.mp h
          have h1 := length_skipScalar hinner
          have h2 := ih h
          omega

/-- The payload is one that fits `size` bytes. -/
def Value.FitsIn (size : ℕ) : Value → Prop
  | .lengthDelimited s => s.length ≤ size
  | _ => True

theorem Value.FitsIn.mono {v : Value} {size size' : ℕ} (h : v.FitsIn size) (hle : size ≤ size') :
    v.FitsIn size' := by
  cases v with
  | lengthDelimited s => exact le_trans h hle
  | varint | fixed64 | group | fixed32 => trivial

theorem length_decodeValue {v : Value} (h : decodeValue number wireType bs = some (v, rest)) :
    rest.length ≤ bs.length ∧ v.FitsIn bs.length := by
  unfold decodeValue at h
  split at h
  · obtain ⟨p, hp, heq⟩ := Option.map_eq_some_iff.mp h
    obtain ⟨rfl, rfl⟩ := Prod.mk.inj heq
    exact ⟨le_of_lt (length_decodeVarint hp), trivial⟩
  · obtain ⟨p, hp, heq⟩ := Option.map_eq_some_iff.mp h
    obtain ⟨rfl, rfl⟩ := Prod.mk.inj heq
    exact ⟨(length_takeExact hp).2, trivial⟩
  · obtain ⟨p, hp, h⟩ := Option.bind_eq_some_iff.mp h
    obtain ⟨q, hq, heq⟩ := Option.map_eq_some_iff.mp h
    obtain ⟨rfl, rfl⟩ := Prod.mk.inj heq
    have hlt := length_decodeLength hp
    obtain ⟨hbytes, hrest⟩ := length_takeExact hq
    refine ⟨by omega, ?_⟩
    show q.1.length ≤ bs.length
    omega
  · obtain ⟨p, hp, heq⟩ := Option.map_eq_some_iff.mp h
    obtain ⟨rfl, rfl⟩ := Prod.mk.inj heq
    exact ⟨length_skipGroup hp, trivial⟩
  · obtain ⟨p, hp, heq⟩ := Option.map_eq_some_iff.mp h
    obtain ⟨rfl, rfl⟩ := Prod.mk.inj heq
    exact ⟨(length_takeExact hp).2, trivial⟩
  · simp at h

theorem length_decodeField {f : Field} (h : decodeField bs = some (f, rest)) :
    rest.length ≤ bs.length ∧ f.value.FitsIn bs.length := by
  obtain ⟨p, hp, h⟩ := Option.bind_eq_some_iff.mp h
  have hlt := length_decodeTag hp
  split at h
  · simp at h
  · obtain ⟨q, hq, heq⟩ := Option.map_eq_some_iff.mp h
    obtain ⟨rfl, rfl⟩ := Prod.mk.inj heq
    obtain ⟨hrest, hfits⟩ := length_decodeValue hq
    exact ⟨by omega, hfits.mono (le_of_lt hlt)⟩

theorem fitsIn_decodeFieldsAux {fs : List Field} (h : decodeFieldsAux fuel bs = some fs) :
    ∀ f ∈ fs, f.value.FitsIn bs.length := by
  induction fuel generalizing bs fs with
  | zero =>
    cases bs with
    | nil => simp_all [decodeFieldsAux]
    | cons b bs => simp [decodeFieldsAux] at h
  | succ fuel ih =>
    cases bs with
    | nil => simp_all [decodeFieldsAux]
    | cons b bs =>
      rw [decodeFieldsAux] at h
      obtain ⟨p, hp, h⟩ := Option.bind_eq_some_iff.mp h
      obtain ⟨rest, hrest, rfl⟩ := Option.map_eq_some_iff.mp h
      obtain ⟨hle, hfits⟩ := length_decodeField hp
      intro f hf
      rcases List.mem_cons.mp hf with rfl | hf
      · exact hfits
      · exact (ih hrest f hf).mono hle

/-- No payload is longer than the bytes it was read from. -/
theorem fitsIn_decodeFields {fs : List Field} (h : decodeFields bs = some fs) :
    ∀ f ∈ fs, f.value.FitsIn bs.length :=
  fitsIn_decodeFieldsAux h

theorem length_encodeVarintAux_le (fuel n : ℕ) : (encodeVarintAux fuel n).length ≤ fuel := by
  induction fuel generalizing n with
  | zero => exact le_refl 0
  | succ fuel ih =>
    rw [encodeVarintAux]
    split
    · exact Nat.succ_le_succ (Nat.zero_le fuel)
    · exact Nat.succ_le_succ (ih (n / 128))

theorem length_encodeVarint_le (n : ℕ) : (encodeVarint n).length ≤ 10 :=
  length_encodeVarintAux_le 10 n

end Length

/-! ### Schemas -/

/-- A message type: the default message, the records a message is written as, and
how one record is merged into a message (`none` where the record breaks the
schema, such as a text field that is not UTF-8). -/
structure Codec (μ : Type*) where
  empty : μ
  fields : μ → List Field
  mergeField : μ → Field → Option μ
  wellFormed : ∀ m, ∀ f ∈ fields m, f.WellFormed

variable {μ ν : Type*}

/-- The bytes of a message. -/
def Codec.encode (c : Codec μ) (m : μ) : Bytes := encodeFields (c.fields m)

/-- The message some bytes hold. -/
def Codec.decode (c : Codec μ) (bs : Bytes) : Option μ :=
  (decodeFields bs).bind fun fs => fs.foldlM c.mergeField c.empty

/-- **Nothing on the wire names the schema**: reading with `d` what `c` wrote folds
the schema of `d` over the records of `c`. -/
theorem Codec.decode_encode (c : Codec μ) (d : Codec ν) {m : μ}
    (hlen : (c.encode m).length ≤ maxLength) :
    d.decode (c.encode m) = (c.fields m).foldlM d.mergeField d.empty := by
  rw [Codec.decode, Codec.encode, decodeFields_encodeFields (c.wellFormed m) hlen,
    Option.bind_some]

/-- Two schemas that merge alike read alike: if `h` turns messages of `c` into
messages of `d` and commutes with merging, it commutes with reading. -/
theorem Codec.decode_map {c : Codec μ} {d : Codec ν} {h : μ → ν} (hempty : d.empty = h c.empty)
    (hmerge : ∀ m f, d.mergeField (h m) f = (c.mergeField m f).map h) (bs : Bytes) :
    d.decode bs = (c.decode bs).map h := by
  have hfold : ∀ (fs : List Field) (m : μ),
      fs.foldlM d.mergeField (h m) = (fs.foldlM c.mergeField m).map h := by
    intro fs
    induction fs with
    | nil => intro m; rfl
    | cons f fs ih =>
      intro m
      rw [List.foldlM_cons, List.foldlM_cons, hmerge]
      cases c.mergeField m f with
      | none => rfl
      | some m' => exact ih m'
  rw [Codec.decode, Codec.decode, hempty]
  cases decodeFields bs with
  | none => rfl
  | some fs => exact hfold fs c.empty

/-- What merging a record keeps, reading keeps; and no record is longer than what is read. -/
theorem Codec.decode_invariant {c : Codec μ} {P : μ → Prop} {bs : Bytes} {m : μ}
    (hempty : P c.empty)
    (hmerge : ∀ m f m', P m → f.value.FitsIn bs.length → c.mergeField m f = some m' → P m')
    (h : c.decode bs = some m) : P m := by
  obtain ⟨fs, hfs, hfold⟩ := Option.bind_eq_some_iff.mp h
  have hfits := fitsIn_decodeFields hfs
  clear hfs h
  generalize c.empty = m₀ at hempty hfold
  induction fs generalizing m₀ with
  | nil =>
    obtain rfl := Option.some.inj hfold
    exact hempty
  | cons f fs ih =>
    rw [List.foldlM_cons] at hfold
    obtain ⟨m₁, hm₁, hrest⟩ := Option.bind_eq_some_iff.mp hfold
    exact ih (fun g hg => hfits g (List.mem_cons_of_mem f hg)) m₁
      (hmerge m₀ f m₁ hempty (hfits f List.mem_cons_self) hm₁) hrest

/-! ### Singular fields

A field that holds its default is not written.  Signed integers travel as the
64-bit two's complement of their value, narrower ones too. -/

/-- The two's complement of `x` in 64 bits. -/
def ofInt (x : ℤ) : ℕ := (x % 2 ^ 64).toNat

/-- The signed value of `n` read in `bits` bits. -/
def toInt (bits n : ℕ) : ℤ :=
  if n % 2 ^ bits < 2 ^ (bits - 1) then (n % 2 ^ bits : ℕ) else (n % 2 ^ bits : ℕ) - 2 ^ bits

/-- `x` is a value of a signed integer type of `bits` bits. -/
def InRange (bits : ℕ) (x : ℤ) : Prop := -2 ^ (bits - 1) ≤ x ∧ x < 2 ^ (bits - 1)

instance (bits : ℕ) (x : ℤ) : Decidable (InRange bits x) :=
  inferInstanceAs (Decidable (_ ∧ _))

theorem ofInt_lt (x : ℤ) : ofInt x < 2 ^ 64 := by
  unfold ofInt
  omega

theorem toInt_ofInt {x : ℤ} (h : InRange 64 x) : toInt 64 (ofInt x) = x := by
  obtain ⟨hlo, hhi⟩ := h
  norm_num at hlo hhi
  unfold toInt ofInt
  norm_num
  split <;> omega

theorem toInt32_ofInt {x : ℤ} (h : InRange 32 x) : toInt 32 (ofInt x) = x := by
  obtain ⟨hlo, hhi⟩ := h
  norm_num at hlo hhi
  unfold toInt ofInt
  norm_num
  split <;> omega

theorem inRange_toInt32 (n : ℕ) : InRange 32 (toInt 32 n) := by
  unfold InRange toInt
  norm_num
  split <;> omega

/-- A singular `int64` or `int32` field. -/
def intField (number : ℕ) (x : ℤ) : List Field :=
  if x = 0 then [] else [⟨number, .varint (ofInt x)⟩]

/-- A singular `bool` field. -/
def boolField (number : ℕ) (b : Bool) : List Field :=
  if b then [⟨number, .varint 1⟩] else []

/-- A singular `string` or `bytes` field. -/
def bytesField (number : ℕ) (s : Bytes) : List Field :=
  if s = [] then [] else [⟨number, .lengthDelimited s⟩]

theorem length_encodeFields_append (fs gs : List Field) :
    (encodeFields (fs ++ gs)).length = (encodeFields fs).length + (encodeFields gs).length := by
  rw [encodeFields, List.flatMap_append, List.length_append]
  rfl

theorem length_intField_le (number : ℕ) (x : ℤ) :
    (encodeFields (intField number x)).length ≤ 20 := by
  unfold intField
  split
  · exact Nat.zero_le 20
  · have htag := length_encodeVarint_le (number * 8 + 0)
    have hvalue := length_encodeVarint_le (ofInt x)
    simp only [encodeFields, List.flatMap_cons, List.flatMap_nil, List.append_nil, encodeField,
      encodeTag, Value.wireType, List.length_append]
    omega

theorem length_bytesField_le (number : ℕ) (s : Bytes) :
    (encodeFields (bytesField number s)).length ≤ 20 + s.length := by
  unfold bytesField
  split
  · exact Nat.zero_le _
  · have htag := length_encodeVarint_le (number * 8 + 2)
    have hsize := length_encodeVarint_le s.length
    simp only [encodeFields, List.flatMap_cons, List.flatMap_nil, List.append_nil, encodeField,
      encodeTag, Value.wireType, List.length_append]
    omega

section WellFormed

variable {number : ℕ} (hpos : 0 < number) (hlt : number < 2 ^ 29)

include hpos hlt

theorem wellFormed_intField (x : ℤ) : ∀ f ∈ intField number x, f.WellFormed := by
  intro f hf
  unfold intField at hf
  split at hf
  · simp at hf
  · rw [List.mem_singleton] at hf
    subst hf
    exact ⟨hpos, hlt, ofInt_lt x⟩

theorem wellFormed_boolField (b : Bool) : ∀ f ∈ boolField number b, f.WellFormed := by
  intro f hf
  unfold boolField at hf
  split at hf
  · rw [List.mem_singleton] at hf
    subst hf
    exact ⟨hpos, hlt, by norm_num⟩
  · simp at hf

theorem wellFormed_bytesField (s : Bytes) : ∀ f ∈ bytesField number s, f.WellFormed := by
  intro f hf
  unfold bytesField at hf
  split at hf
  · simp at hf
  · rw [List.mem_singleton] at hf
    subst hf
    exact ⟨hpos, hlt, trivial⟩

end WellFormed

/-! ### Folding a schema over singular fields

The default of a field is what its absence leaves behind, so a fold over a field
that may have been omitted is the merge of its value either way. -/

section Fold

variable {merge : ν → Field → Option ν} {m : ν} {number : ℕ}

theorem foldlM_intField {x : ℤ} {m' : ν} (hzero : x = 0 → m' = m)
    (h : merge m ⟨number, .varint (ofInt x)⟩ = some m') :
    (intField number x).foldlM merge m = some m' := by
  unfold intField
  split
  · next hx => simp [hzero hx]
  · simp [h]

theorem foldlM_bytesField {s : Bytes} {m' : ν} (hnil : s = [] → m' = m)
    (h : merge m ⟨number, .lengthDelimited s⟩ = some m') :
    (bytesField number s).foldlM merge m = some m' := by
  unfold bytesField
  split
  · next hs => simp [hnil hs]
  · simp [h]

theorem foldlM_bytesField_none {s : Bytes} (hne : s ≠ [])
    (h : merge m ⟨number, .lengthDelimited s⟩ = none) :
    (bytesField number s).foldlM merge m = none := by
  simp [bytesField, hne, h]

/-- Records the schema does not know leave the message alone. -/
theorem foldlM_unknown {fs : List Field} (h : ∀ f ∈ fs, merge m f = some m) :
    fs.foldlM merge m = some m := by
  induction fs with
  | nil => rfl
  | cons f fs ih =>
    rw [List.foldlM_cons, h f List.mem_cons_self]
    exact ih fun g hg => h g (List.mem_cons_of_mem _ hg)

end Fold

/-! ### Schemas written field by field -/

/-- One field of a message type: how it is written, how a payload under its number
is merged, that its value is one of the field's type, and that its text is UTF-8.
A payload of another wire type is an unknown record and is skipped. -/
structure FieldSpec (μ : Type*) where
  number : ℕ
  write : μ → List Field
  merge : μ → Value → Option μ
  typed : μ → Prop
  text : μ → Prop
  wellFormed : ∀ m, ∀ f ∈ write m, f.WellFormed

/-- The codec of a list of fields; a number none of them has is skipped. -/
def Codec.ofSchema (empty : μ) (schema : List (FieldSpec μ)) : Codec μ where
  empty := empty
  fields m := schema.flatMap fun s => s.write m
  mergeField m f :=
    match schema.find? fun s => s.number == f.number with
    | some s => s.merge m f.value
    | none => some m
  wellFormed m f hf := by
    obtain ⟨s, -, hs⟩ := List.mem_flatMap.mp hf
    exact s.wellFormed m f hs

/-- Every field of the message holds a value of its type. -/
def Typed (schema : List (FieldSpec μ)) (m : μ) : Prop := ∀ s ∈ schema, s.typed m

/-- Every text field of the message is UTF-8. -/
def Text (schema : List (FieldSpec μ)) (m : μ) : Prop := ∀ s ∈ schema, s.text m

/-- The numbers a field may have. -/
class FieldNumber (number : ℕ) : Prop where
  pos : 0 < number
  lt : number < 2 ^ 29

instance : FieldNumber 1 := ⟨by decide, by decide⟩
instance : FieldNumber 2 := ⟨by decide, by decide⟩
instance : FieldNumber 3 := ⟨by decide, by decide⟩
instance : FieldNumber 4 := ⟨by decide, by decide⟩
instance : FieldNumber 5 := ⟨by decide, by decide⟩
instance : FieldNumber 6 := ⟨by decide, by decide⟩

namespace FieldSpec

/-- An `int64` field. -/
def int64 (number : ℕ) (get : μ → ℤ) (set : μ → ℤ → μ)
    [FieldNumber number] : FieldSpec μ where
  number := number
  write m := intField number (get m)
  merge m v :=
    match v with
    | .varint n => some (set m (toInt 64 n))
    | _ => some m
  typed m := InRange 64 (get m)
  text _ := True
  wellFormed m := wellFormed_intField FieldNumber.pos FieldNumber.lt (get m)

/-- An `int32` field. -/
def int32 (number : ℕ) (get : μ → ℤ) (set : μ → ℤ → μ)
    [FieldNumber number] : FieldSpec μ where
  number := number
  write m := intField number (get m)
  merge m v :=
    match v with
    | .varint n => some (set m (toInt 32 n))
    | _ => some m
  typed m := InRange 32 (get m)
  text _ := True
  wellFormed m := wellFormed_intField FieldNumber.pos FieldNumber.lt (get m)

/-- A `bool` field. -/
def bool (number : ℕ) (get : μ → Bool) (set : μ → Bool → μ)
    [FieldNumber number] : FieldSpec μ where
  number := number
  write m := boolField number (get m)
  merge m v :=
    match v with
    | .varint n => some (set m (n != 0))
    | _ => some m
  typed _ := True
  text _ := True
  wellFormed m := wellFormed_boolField FieldNumber.pos FieldNumber.lt (get m)

/-- A `string` field: its payload has to be UTF-8. -/
def string (number : ℕ) (get : μ → Bytes) (set : μ → Bytes → μ)
    [FieldNumber number] : FieldSpec μ where
  number := number
  write m := bytesField number (get m)
  merge m v :=
    match v with
    | .lengthDelimited s => if validUtf8 s then some (set m s) else none
    | _ => some m
  typed _ := True
  text m := validUtf8 (get m) = true
  wellFormed m := wellFormed_bytesField FieldNumber.pos FieldNumber.lt (get m)

/-- A `bytes` field. -/
def bytes (number : ℕ) (get : μ → Bytes) (set : μ → Bytes → μ)
    [FieldNumber number] : FieldSpec μ where
  number := number
  write m := bytesField number (get m)
  merge m v :=
    match v with
    | .lengthDelimited s => some (set m s)
    | _ => some m
  typed _ := True
  text _ := True
  wellFormed m := wellFormed_bytesField FieldNumber.pos FieldNumber.lt (get m)

/-- A `repeated` field of messages with the given schema and codec. -/
def repeated (number : ℕ) (schema : List (FieldSpec ν)) (c : Codec ν) (get : μ → List ν)
    (push : μ → ν → μ) [FieldNumber number] : FieldSpec μ where
  number := number
  write m := (get m).map fun x => ⟨number, .lengthDelimited (c.encode x)⟩
  merge m v :=
    match v with
    | .lengthDelimited s => (c.decode s).map (push m)
    | _ => some m
  typed m := ∀ x ∈ get m, Typed schema x
  text m := ∀ x ∈ get m, Text schema x
  wellFormed m f hf := by
    obtain ⟨x, -, rfl⟩ := List.mem_map.mp hf
    exact ⟨FieldNumber.pos, FieldNumber.lt, trivial⟩

end FieldSpec

end Wire
