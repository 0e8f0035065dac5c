import Mathlib.Algebra.Order.Ring.Nat
import Mathlib.Data.List.Basic
import Mathlib.Tactic.Common

/-!
# Byte strings

A byte string is a list of octets, the empty list being the empty string.  This
module holds the two encodings everything above rests on: the 32-bit big-endian
integer a length prefix is written in, and the UTF-8 well-formedness test that a
text field has to pass.

## Main definitions

* `Bytes` — byte strings; `utf8` — the bytes of a literal.
* `be32`, `readBe32` — writing and reading a 32-bit integer in network order.
* `validUtf8` — the well-formedness test of the Unicode standard, as an
  automaton that reads one byte at a time.

## Main results

* `readBe32_be32` — reading back what was written gives the value modulo `2 ^ 32`.
* `validUtf8_append` — texts one behind the other are a text.
-/

/-- A byte string. -/
abbrev Bytes := List UInt8

/-- The bytes of a string literal. -/
def utf8 (s : String) : Bytes := s.toUTF8.data.toList

/-! ### Integers in network order -/

/-- The four bytes of `n` modulo `2 ^ 32`, most significant first. -/
def be32 (n : ℕ) : Bytes :=
  [UInt8.ofNat (n / 2 ^ 24), UInt8.ofNat (n / 2 ^ 16), UInt8.ofNat (n / 2 ^ 8), UInt8.ofNat n]

/-- The integer the first four bytes hold; missing bytes count as zero. -/
def readBe32 (bs : Bytes) : ℕ :=
  (bs.getD 0 0).toNat * 2 ^ 24 + (bs.getD 1 0).toNat * 2 ^ 16 +
    (bs.getD 2 0).toNat * 2 ^ 8 + (bs.getD 3 0).toNat

@[simp] theorem length_be32 (n : ℕ) : (be32 n).length = 4 := rfl

/-- Reading back what was written, whatever follows it. -/
theorem readBe32_be32 (n : ℕ) (rest : Bytes) : readBe32 (be32 n ++ rest) = n % 2 ^ 32 := by
  simp only [readBe32, be32, List.cons_append, List.nil_append, List.getD_cons_zero,
    List.getD_cons_succ, UInt8.toNat_ofNat']
  omega

theorem readBe32_be32_of_lt {n : ℕ} (h : n < 2 ^ 32) (rest : Bytes) :
    readBe32 (be32 n ++ rest) = n := by
  rw [readBe32_be32, Nat.mod_eq_of_lt h]

/-- Only the first four bytes matter. -/
theorem readBe32_append {bs : Bytes} (h : 4 ≤ bs.length) (rest : Bytes) :
    readBe32 (bs ++ rest) = readBe32 bs := by
  match bs, h with
  | _ :: _ :: _ :: _ :: _, _ => rfl

/-! ### UTF-8 -/

/-- What a leading byte announces: the number of continuation bytes and the range
the first of them has to lie in, or `none` for a byte no code point starts with.
The narrowed ranges exclude overlong forms, surrogates and values past `U+10FFFF`. -/
def utf8Lead (b : UInt8) : Option (ℕ × UInt8 × UInt8) :=
  if b < 0x80 then some (0, 0x80, 0xBF)
  else if b < 0xC2 then none
  else if b ≤ 0xDF then some (1, 0x80, 0xBF)
  else if b = 0xE0 then some (2, 0xA0, 0xBF)
  else if b = 0xED then some (2, 0x80, 0x9F)
  else if b ≤ 0xEF then some (2, 0x80, 0xBF)
  else if b = 0xF0 then some (3, 0x90, 0xBF)
  else if b ≤ 0xF3 then some (3, 0x80, 0xBF)
  else if b = 0xF4 then some (3, 0x80, 0x8F)
  else none

/-- The automaton: `need` continuation bytes are outstanding, and the next one
has to lie between `lo` and `hi`. -/
def validUtf8From : ℕ → UInt8 → UInt8 → Bytes → Bool
  | need, _, _, [] => need == 0
  | 0, _, _, b :: bs =>
      match utf8Lead b with
      | none => false
      | some (need, lo, hi) => validUtf8From need lo hi bs
  | need + 1, lo, hi, b :: bs =>
      decide (lo ≤ b) && decide (b ≤ hi) && validUtf8From need 0x80 0xBF bs

/-- The byte string is well-formed UTF-8. -/
def validUtf8 (bs : Bytes) : Bool := validUtf8From 0 0x80 0xBF bs

@[simp] theorem validUtf8_nil : validUtf8 [] = true := rfl

/-- Behind a complete text the automaton starts anew. -/
theorem validUtf8From_append (ds : Bytes) : ∀ (need : ℕ) (lo hi : UInt8) (bs : Bytes),
    validUtf8From need lo hi bs = true → validUtf8From need lo hi (bs ++ ds) = validUtf8 ds
  | 0, lo, hi, [], _ => by cases ds <;> rfl
  | need + 1, lo, hi, [], h => absurd h (by simp [validUtf8From])
  | 0, lo, hi, b :: bs, h => by
    rw [List.cons_append, validUtf8From]
    rw [validUtf8From] at h
    cases hlead : utf8Lead b with
    | none => simp [hlead] at h
    | some p =>
      simp only [hlead] at h
      exact validUtf8From_append ds p.1 p.2.1 p.2.2 bs h
  | need + 1, lo, hi, b :: bs, h => by
    rw [List.cons_append, validUtf8From]
    rw [validUtf8From, Bool.and_eq_true] at h
    rw [h.1, Bool.true_and]
    exact validUtf8From_append ds need 0x80 0xBF bs h.2

/-- **What is put behind a text** decides whether the whole is one. -/
theorem validUtf8_append {bs : Bytes} (h : validUtf8 bs = true) (ds : Bytes) :
    validUtf8 (bs ++ ds) = validUtf8 ds :=
  validUtf8From_append ds 0 0x80 0xBF bs h

example : validUtf8 [0x72, 0xE8, 0x8A, 0x82] = true := by decide
