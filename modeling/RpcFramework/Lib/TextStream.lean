import RpcFramework.Lib.Bytes
import Mathlib.Algebra.Order.Ring.Int

/-!
# Text streams

Text is written by inserting strings and decimal numbers into a stream, and read by
extracting them again.  An extraction skips whitespace, reads up to the next whitespace for
a string and as many digits as there are for a number, and leaves what is behind it in the
stream.  A stream on which an extraction failed, or which was read to its end, has nothing
more to give: the variables of later extractions keep what they hold.

## Main definitions

* `isSpace`, `Spaceless` — whitespace, and the strings without any.
* `decimalNat`, `decimal` — the insertion of a number.
* `TextStream`, `TextStream.extractString`, `TextStream.extractUnsigned`,
  `TextStream.extractSigned` — the extractions.

## Main results

* `TextStream.extractString_of`, `TextStream.extractUnsigned_of`,
  `TextStream.extractSigned_of` — **what was inserted is extracted**, if whitespace follows.
* `TextStream.spaceless_extractString` — an extracted string has no whitespace.
* `append_decimal_inj` — **text and number, told from the whole.**
-/

/-- The whitespace of the classic locale: blank, `\t`, `\n`, `\v`, `\f` and `\r`. -/
def isSpace (b : UInt8) : Bool := b == 0x20 || (0x09 ≤ b && b ≤ 0x0D)

def isDigit (b : UInt8) : Bool := 0x30 ≤ b && b ≤ 0x39

/-- The string has no whitespace in it. -/
def Spaceless (t : Bytes) : Prop := ∀ b ∈ t, isSpace b = false

instance (t : Bytes) : Decidable (Spaceless t) := List.decidableBAll _ _

theorem spaceless_nil : Spaceless [] := fun _ h => absurd h List.not_mem_nil

/-! ### Numbers -/

/-- The digits of a number, the most significant first. -/
def decimalNat (n : ℕ) : Bytes := (Nat.toDigits 10 n).map fun c => UInt8.ofNat c.toNat

/-- A negative number has its sign in front. -/
def decimal (x : ℤ) : Bytes := if x < 0 then 0x2D :: decimalNat x.natAbs else decimalNat x.natAbs

/-- The number that digits stand for. -/
def digitsValue (digits : Bytes) : ℕ := digits.foldl (fun n b => 10 * n + (b.toNat - 0x30)) 0

theorem toNat_ofNat_of_isDigit {c : Char} (h : c.isDigit = true) :
    (UInt8.ofNat c.toNat).toNat = c.toNat ∧ 0x30 ≤ c.toNat ∧ c.toNat ≤ 0x39 := by
  have hc : 0x30 ≤ c.toNat ∧ c.toNat ≤ 0x39 := by
    simp only [Char.isDigit, Bool.and_eq_true, decide_eq_true_eq] at h
    exact ⟨UInt32.le_iff_toNat_le.mp h.1, UInt32.le_iff_toNat_le.mp h.2⟩
  refine ⟨?_, hc⟩
  rw [UInt8.toNat_ofNat']
  omega

theorem isDigit_of_mem_decimalNat {n : ℕ} {b : UInt8} (h : b ∈ decimalNat n) :
    isDigit b = true := by
  obtain ⟨c, hc, rfl⟩ := List.mem_map.mp h
  obtain ⟨hval, hlo, hhi⟩ :=
    toNat_ofNat_of_isDigit (Nat.isDigit_of_mem_toDigits (by decide) (by decide) hc)
  simp only [isDigit, Bool.and_eq_true, decide_eq_true_eq, UInt8.le_iff_toNat_le, hval]
  exact ⟨hlo, hhi⟩

theorem decimalNat_ne_nil (n : ℕ) : decimalNat n ≠ [] := by
  rw [decimalNat, ne_eq, List.map_eq_nil_iff]
  exact Nat.toDigits_ne_nil

/-- **The digits of a number stand for it.** -/
theorem digitsValue_decimalNat (n : ℕ) : digitsValue (decimalNat n) = n := by
  have hfold : ∀ (cs : List Char) (acc : ℕ), (∀ c ∈ cs, c.isDigit = true) →
      (cs.map fun c => UInt8.ofNat c.toNat).foldl (fun n b => 10 * n + (b.toNat - 0x30)) acc =
        Nat.ofDigitChars 10 cs acc := by
    intro cs
    induction cs with
    | nil => intro acc _; rfl
    | cons c cs ih =>
      intro acc hdigit
      rw [List.map_cons, List.foldl_cons, Nat.ofDigitChars_cons,
        (toNat_ofNat_of_isDigit (hdigit c List.mem_cons_self)).1]
      exact ih _ fun d hd => hdigit d (List.mem_cons_of_mem _ hd)
  rw [digitsValue, decimalNat,
    hfold _ _ fun c hc => Nat.isDigit_of_mem_toDigits (by decide) (by decide) hc]
  exact Nat.ofDigitChars_ten_toDigits

theorem decimalNat_injective : Function.Injective decimalNat := by
  intro n n' h
  rw [← digitsValue_decimalNat n, h, digitsValue_decimalNat]

/-- What a number is written with. -/
theorem mem_decimal {x : ℤ} {b : UInt8} (h : b ∈ decimal x) : isDigit b = true ∨ b = 0x2D := by
  rw [decimal] at h
  split at h
  · rcases List.mem_cons.mp h with rfl | h
    · exact Or.inr rfl
    · exact Or.inl (isDigit_of_mem_decimalNat h)
  · exact Or.inl (isDigit_of_mem_decimalNat h)

theorem decimal_injective : Function.Injective decimal := by
  -- no number begins with a sign and is not negative
  have hsign : ∀ {n : ℕ} {l : Bytes}, 0x2D :: l ≠ decimalNat n := by
    intro n l h
    have hdigit := isDigit_of_mem_decimalNat (h ▸ List.mem_cons_self)
    exact absurd hdigit (by decide)
  intro x x' h
  rw [decimal, decimal] at h
  split at h
  · next hneg =>
    split at h
    · next hneg' =>
      have habs := decimalNat_injective (List.cons.inj h).2
      omega
    · exact absurd h hsign
  · next hpos =>
    split at h
    · exact absurd h.symm hsign
    · next hpos' =>
      have habs := decimalNat_injective h
      omega

/-- Text, a byte that no number is written with, and a number: the whole tells both. -/
theorem append_decimal_inj {c : UInt8} (hdigit : isDigit c = false) (hsign : c ≠ 0x2D)
    {text text' : Bytes} {x x' : ℤ} (h : text ++ c :: decimal x = text' ++ c :: decimal x') :
    text = text' ∧ x = x' := by
  have hnot : ∀ y, c ∉ decimal y := by
    intro y hmem
    rcases mem_decimal hmem with hd | hs
    · rw [hdigit] at hd
      cases hd
    · exact hsign hs
  rcases List.append_eq_append_iff.mp h with ⟨more, rfl, hmore⟩ | ⟨more, rfl, hmore⟩
  · cases more with
    | nil => exact ⟨(List.append_nil _).symm, decimal_injective (List.cons.inj hmore).2⟩
    | cons b more =>
      refine absurd ?_ (hnot x)
      rw [(List.cons.inj hmore).2]
      exact List.mem_append_right _ List.mem_cons_self
  · cases more with
    | nil => exact ⟨List.append_nil _, decimal_injective (List.cons.inj hmore).2.symm⟩
    | cons b more =>
      refine absurd ?_ (hnot x')
      rw [(List.cons.inj hmore).2]
      exact List.mem_append_right _ List.mem_cons_self

theorem isSpace_of_isDigit {b : UInt8} (h : isDigit b = true) : isSpace b = false := by
  simp only [isDigit, Bool.and_eq_true, decide_eq_true_eq, UInt8.le_iff_toNat_le] at h
  have hlo : 48 ≤ b.toNat := h.1
  simp only [isSpace, Bool.or_eq_false_iff, Bool.and_eq_false_iff, decide_eq_false_iff_not,
    beq_eq_false_iff_ne, ne_eq, UInt8.le_iff_toNat_le]
  refine ⟨?_, Or.inr ?_⟩
  · rintro rfl
    exact absurd hlo (by decide)
  · intro hhi
    have : b.toNat ≤ 13 := hhi
    omega

/-! ### Streams -/

/-- An input stream: what is left of the text, and whether an extraction came to its end,
or failed. -/
structure TextStream where
  rest : Bytes
  eof : Bool := false
  fail : Bool := false
  deriving DecidableEq, Repr

namespace TextStream

/-- A stream from which everything could be extracted so far. -/
def of (text : Bytes) : TextStream := { rest := text }

/-- What an extraction left in front is skipped by the next one. -/
theorem of_cons (b : UInt8) (text : Bytes) : of (b :: text) = of ([b] ++ text) := rfl

/-- What every extraction does first: it skips whitespace, and fails where nothing is
behind it or the stream is not good. -/
def sentry (s : TextStream) : TextStream :=
  if s.eof = true ∨ s.fail = true then { s with fail := true }
  else if s.rest.dropWhile isSpace = [] then { rest := [], eof := true, fail := true }
  else { s with rest := s.rest.dropWhile isSpace }

/-- The extraction of a string into a variable that holds `old`. -/
def extractString (s : TextStream) (old : Bytes) : Bytes × TextStream :=
  let s := s.sentry
  if s.fail then (old, s)
  else
    let rest := s.rest.dropWhile fun b => !isSpace b
    (s.rest.takeWhile fun b => !isSpace b, { s with rest := rest, eof := rest.isEmpty })

/-- What is behind the sign, if there is one. -/
def unsigned : Bytes → Bytes
  | [] => []
  | b :: bs => if b = 0x2D ∨ b = 0x2B then bs else b :: bs

/-- The extraction of a number into a variable that holds `old`; `convert` makes the value
of the sign and the digits, and tells whether it is one of the type. -/
def extractNumber {α : Type*} (zero : α) (convert : Bool → ℕ → α × Bool) (s : TextStream)
    (old : α) : α × TextStream :=
  let s := s.sentry
  if s.fail then (old, s)
  else
    let digits := (unsigned s.rest).takeWhile isDigit
    let rest := (unsigned s.rest).dropWhile isDigit
    if digits = [] then (zero, { rest := rest, eof := rest.isEmpty, fail := true })
    else
      let (value, ok) := convert (s.rest.head? == some 0x2D) (digitsValue digits)
      (value, { rest := rest, eof := rest.isEmpty, fail := !ok })

/-- A value of an unsigned type: a sign is taken modulo the range, and what is beyond the
range becomes the greatest value. -/
def toUnsigned (bits : ℕ) (negative : Bool) (magnitude : ℕ) : ℕ × Bool :=
  if 2 ^ bits ≤ magnitude then (2 ^ bits - 1, false)
  else (if negative then (2 ^ bits - magnitude) % 2 ^ bits else magnitude, true)

/-- A value of a signed type: what is beyond the range becomes the value at that end. -/
def toSigned (bits : ℕ) (negative : Bool) (magnitude : ℕ) : ℤ × Bool :=
  let x : ℤ := if negative then -magnitude else magnitude
  if x < -2 ^ (bits - 1) then (-2 ^ (bits - 1), false)
  else if 2 ^ (bits - 1) ≤ x then (2 ^ (bits - 1) - 1, false)
  else (x, true)

def extractUnsigned (bits : ℕ) (s : TextStream) (old : ℕ) : ℕ × TextStream :=
  s.extractNumber 0 (toUnsigned bits) old

def extractSigned (bits : ℕ) (s : TextStream) (old : ℤ) : ℤ × TextStream :=
  s.extractNumber 0 (toSigned bits) old

example : (of [0x20, 0x2D, 0x31, 0x32, 0x0A]).extractSigned 32 0 = (-12, of [0x0A]) := by decide

/-! ### What was inserted is extracted -/

section Extract

variable {gap t more : Bytes} {c : UInt8}

/-- Only the whitespace in front of a string is skipped. -/
theorem sentry_of (hgap : ∀ b ∈ gap, isSpace b = true) {b : UInt8} {bs : Bytes}
    (hb : isSpace b = false) : (of (gap ++ b :: bs)).sentry = of (b :: bs) := by
  have hskip : (gap ++ b :: bs).dropWhile isSpace = b :: bs := by
    rw [List.dropWhile_append_of_pos hgap, List.dropWhile_cons_of_neg (by rw [hb]; decide)]
  simp [sentry, of, hskip]

/-- One whitespace byte is a gap. -/
theorem isSpace_of_mem_singleton (hc : isSpace c = true) : ∀ b ∈ [c], isSpace b = true :=
  List.forall_mem_singleton.mpr hc

/-- A run of bytes that pass a test ends where one does not. -/
theorem takeWhile_dropWhile_append {p : UInt8 → Bool} (ht : ∀ b ∈ t, p b = true)
    (hc : p c = false) :
    (t ++ c :: more).takeWhile p = t ∧ (t ++ c :: more).dropWhile p = c :: more := by
  constructor
  · rw [List.takeWhile_append_of_pos ht, List.takeWhile_cons_of_neg (by rw [hc]; decide),
      List.append_nil]
  · rw [List.dropWhile_append_of_pos ht, List.dropWhile_cons_of_neg (by rw [hc]; decide)]

/-- **A string is extracted as it was inserted**, if it has no whitespace. -/
theorem extractString_of (hgap : ∀ b ∈ gap, isSpace b = true) (hnil : t ≠ [])
    (ht : Spaceless t) (hc : isSpace c = true) (old : Bytes) :
    (of (gap ++ (t ++ c :: more))).extractString old = (t, of (c :: more)) := by
  obtain ⟨b, bs, rfl⟩ := List.exists_cons_of_ne_nil hnil
  have hsentry : (of (gap ++ (b :: bs ++ c :: more))).sentry = of (b :: bs ++ c :: more) :=
    sentry_of hgap (ht b List.mem_cons_self)
  have hsplit := @takeWhile_dropWhile_append (b :: bs) more c (fun b => !isSpace b)
    (fun x hx => by simp [ht x hx]) (by simp [hc])
  rw [extractString, hsentry]
  simp only [of, Bool.false_eq_true, if_false, hsplit.1, hsplit.2, List.isEmpty_cons]

/-- A number without a sign is taken as it stands. -/
theorem unsigned_of_isDigit {b : UInt8} {bs : Bytes} (h : isDigit b = true) :
    unsigned (b :: bs) = b :: bs ∧ ((b :: bs).head? == some 0x2D) = false := by
  have hne : b ≠ 0x2D ∧ b ≠ 0x2B := by
    constructor <;> rintro rfl <;> exact absurd h (by decide)
  constructor
  · rw [unsigned, if_neg (by simp [hne])]
  · simp [hne]

theorem extractNumber_of {α : Type*} {zero : α} {convert : Bool → ℕ → α × Bool} {value : α}
    (negative : Bool) {n : ℕ} (hgap : ∀ b ∈ gap, isSpace b = true) (hc : isSpace c = true)
    (hvalue : convert negative n = (value, true)) (old : α) :
    (of (gap ++ ((if negative then [0x2D] else []) ++ decimalNat n ++ c :: more))).extractNumber
        zero convert old = (value, of (c :: more)) := by
  have hdigit : isDigit c = false := by
    by_contra hcon
    rw [Bool.not_eq_false] at hcon
    rw [isSpace_of_isDigit hcon] at hc
    exact absurd hc (by decide)
  have hsplit := @takeWhile_dropWhile_append (decimalNat n) more c isDigit
    (fun x hx => isDigit_of_mem_decimalNat hx) hdigit
  obtain ⟨b, bs, hbs⟩ := List.exists_cons_of_ne_nil (decimalNat_ne_nil n)
  have hb : isDigit b = true := isDigit_of_mem_decimalNat (n := n) (hbs ▸ List.mem_cons_self)
  cases negative with
  | false =>
    obtain ⟨hunsigned, hsign⟩ := @unsigned_of_isDigit b (bs ++ c :: more) hb
    have hsentry : (of (gap ++ (decimalNat n ++ c :: more))).sentry =
        of (decimalNat n ++ c :: more) := by
      rw [hbs]
      exact sentry_of hgap (isSpace_of_isDigit hb)
    rw [← List.cons_append, ← hbs] at hunsigned hsign
    simp only [Bool.false_eq_true, if_false, List.nil_append]
    rw [extractNumber, hsentry]
    simp only [of, Bool.false_eq_true, if_false, hunsigned, hsign, hsplit.1, hsplit.2,
      decimalNat_ne_nil, digitsValue_decimalNat, hvalue, List.isEmpty_cons, Bool.not_true]
  | true =>
    have hsentry : (of (gap ++ (0x2D :: (decimalNat n ++ c :: more)))).sentry =
        of (0x2D :: (decimalNat n ++ c :: more)) := sentry_of hgap (by decide)
    have hunsigned : unsigned (0x2D :: (decimalNat n ++ c :: more)) =
        decimalNat n ++ c :: more := rfl
    simp only [if_true, List.cons_append, List.nil_append]
    rw [extractNumber, hsentry]
    simp only [of, Bool.false_eq_true, if_false, hunsigned, hsplit.1, hsplit.2, List.head?_cons,
      beq_self_eq_true, decimalNat_ne_nil, digitsValue_decimalNat, hvalue, List.isEmpty_cons,
      Bool.not_true]

/-- **An unsigned number is extracted as it was inserted**, if the type has it. -/
theorem extractUnsigned_of {bits n : ℕ} (hgap : ∀ b ∈ gap, isSpace b = true)
    (hc : isSpace c = true) (hn : n < 2 ^ bits) (old : ℕ) :
    (of (gap ++ (decimalNat n ++ c :: more))).extractUnsigned bits old = (n, of (c :: more)) := by
  have hvalue : toUnsigned bits false n = (n, true) := by
    rw [toUnsigned, if_neg (by omega)]
    rfl
  exact extractNumber_of false hgap hc hvalue old

/-- **A signed number is extracted as it was inserted**, if the type has it. -/
theorem extractSigned_of {bits : ℕ} {x : ℤ} (hgap : ∀ b ∈ gap, isSpace b = true)
    (hc : isSpace c = true) (hlo : -2 ^ (bits - 1) ≤ x) (hhi : x < 2 ^ (bits - 1)) (old : ℤ) :
    (of (gap ++ (decimal x ++ c :: more))).extractSigned bits old = (x, of (c :: more)) := by
  have hvalue : ∀ negative : Bool, negative = decide (x < 0) →
      toSigned bits negative x.natAbs = (x, true) := by
    intro negative hneg
    have hx : (if negative then -(x.natAbs : ℤ) else (x.natAbs : ℤ)) = x := by
      subst hneg
      by_cases h : x < 0 <;> simp only [h, decide_true, decide_false, if_true,
        Bool.false_eq_true, if_false] <;> omega
    simp only [toSigned, hx]
    rw [if_neg (by omega), if_neg (by omega)]
  by_cases hneg : x < 0
  · rw [decimal, if_pos hneg]
    exact extractNumber_of true hgap hc (hvalue true (by simp [hneg])) old
  · rw [decimal, if_neg hneg]
    exact extractNumber_of false hgap hc (hvalue false (by simp [hneg])) old

end Extract

/-- **An extracted string has no whitespace**, whatever the stream. -/
theorem spaceless_extractString (s : TextStream) {old : Bytes} (h : Spaceless old) :
    Spaceless (s.extractString old).1 := by
  rw [extractString]
  split
  · exact h
  · intro b hb
    have hall := List.all_eq_true.mp (List.all_takeWhile (p := fun b => !isSpace b)) b hb
    simpa using hall

end TextStream
