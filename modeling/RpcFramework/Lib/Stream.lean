import Mathlib.Data.List.Basic
import Mathlib.Tactic.Common

/-!
# Reassembly of a stream

A stream of tokens arrives in chunks.  A decoder looks at what has arrived and has
not been consumed, and takes one item off the front when there is one.  If more
input never changes what a decoder has already seen, then the items found do not
depend on where the chunks begin and end.

## Main definitions

* `StreamDecoder` — a decoder of the front item, with the two laws.
* `StreamDecoder.drain` — all items of a buffer, and what is left.
* `StreamDecoder.feed` — all items of a list of chunks, drained one after the other.

## Main results

* `StreamDecoder.drain_append` — draining early changes nothing.
* `StreamDecoder.feed_eq_drain` — **the chunks do not matter.**
* `StreamDecoder.next_leftover` — nothing is left at the front to take.
* `StreamDecoder.drain_flatMap` — draining encoded items gives them back.
-/

/-- A decoder of the item at the front of a buffer: it consumes something, and what
follows the item does not matter to it. -/
structure StreamDecoder (τ ι : Type*) where
  next : List τ → Option (ι × List τ)
  next_length : ∀ {buf item rest}, next buf = some (item, rest) → rest.length < buf.length
  next_append : ∀ {buf item rest} (more : List τ), next buf = some (item, rest) →
    next (buf ++ more) = some (item, rest ++ more)

namespace StreamDecoder

variable {τ ι : Type*} (d : StreamDecoder τ ι)

/-- At most `fuel` items off the front. -/
def drainAux : ℕ → List τ → List ι × List τ
  | 0, buf => ([], buf)
  | fuel + 1, buf =>
      match d.next buf with
      | none => ([], buf)
      | some (item, rest) => (item :: (drainAux fuel rest).1, (drainAux fuel rest).2)

/-- All items off the front: an item takes at least one token. -/
def drain (buf : List τ) : List ι × List τ := d.drainAux buf.length buf

theorem drainAux_of_le {fuel fuel' : ℕ} {buf : List τ} (h : buf.length ≤ fuel)
    (h' : buf.length ≤ fuel') : d.drainAux fuel buf = d.drainAux fuel' buf := by
  induction fuel generalizing buf fuel' with
  | zero =>
    obtain rfl : buf = [] := List.length_eq_zero_iff.mp (by omega)
    cases fuel' with
    | zero => rfl
    | succ f =>
      cases hnext : d.next [] with
      | none => simp [drainAux, hnext]
      | some p =>
        have hlt := d.next_length (show d.next [] = some (p.1, p.2) from hnext)
        exact absurd hlt (by simp)
  | succ f ih =>
    cases hnext : d.next buf with
    | none => cases fuel' <;> simp [drainAux, hnext]
    | some p =>
      have hlt := d.next_length (show d.next buf = some (p.1, p.2) from hnext)
      obtain ⟨f', rfl⟩ : ∃ f', fuel' = f' + 1 := ⟨fuel' - 1, by omega⟩
      simp only [drainAux, hnext]
      have hrest : d.drainAux f p.2 = d.drainAux f' p.2 := ih (by omega) (by omega)
      rw [hrest]

theorem drain_of_none {buf : List τ} (h : d.next buf = none) : d.drain buf = ([], buf) := by
  unfold drain
  cases buf.length <;> simp [drainAux, h]

theorem drain_of_some {buf rest : List τ} {item : ι} (h : d.next buf = some (item, rest)) :
    d.drain buf = (item :: (d.drain rest).1, (d.drain rest).2) := by
  have hlt := d.next_length h
  obtain ⟨n, hn⟩ : ∃ n, buf.length = n + 1 := ⟨buf.length - 1, by omega⟩
  have hrest : d.drainAux n rest = d.drain rest := d.drainAux_of_le (by omega) (Nat.le_refl _)
  rw [drain, hn, drainAux, h]
  simp only [hrest]

/-- The induction a draining loop runs on: either there is no item, or the property
holds of what is behind the item. -/
theorem drain_induction {P : List τ → Prop} (hnone : ∀ buf, d.next buf = none → P buf)
    (hsome : ∀ buf item rest, d.next buf = some (item, rest) → P rest → P buf) (buf : List τ) :
    P buf := by
  induction h : buf.length using Nat.strongRecOn generalizing buf with
  | ind n ih =>
    cases hnext : d.next buf with
    | none => exact hnone buf hnext
    | some p =>
      have hlt := d.next_length (show d.next buf = some (p.1, p.2) from hnext)
      exact hsome buf p.1 p.2 hnext (ih p.2.length (by omega) p.2 rfl)

/-- **Nothing is left at the front to take.** -/
theorem next_leftover (buf : List τ) : d.next (d.drain buf).2 = none := by
  induction buf using d.drain_induction with
  | hnone buf h => rw [d.drain_of_none h]; exact h
  | hsome buf item rest h ih => rw [d.drain_of_some h]; exact ih

/-- **Draining early changes nothing**: the items of a longer buffer are those of its
beginning, and then those of what that left behind together with the rest. -/
theorem drain_append (buf more : List τ) :
    d.drain (buf ++ more) =
      ((d.drain buf).1 ++ (d.drain ((d.drain buf).2 ++ more)).1,
        (d.drain ((d.drain buf).2 ++ more)).2) := by
  induction buf using d.drain_induction with
  | hnone buf h => rw [d.drain_of_none h, List.nil_append]
  | hsome buf item rest h ih =>
    rw [d.drain_of_some h, d.drain_of_some (d.next_append more h), ih]
    rfl

/-- Append each chunk to the buffer and drain it. -/
def feed (buf : List τ) : List (List τ) → List ι × List τ
  | [] => ([], buf)
  | chunk :: chunks =>
      ((d.drain (buf ++ chunk)).1 ++ (feed (d.drain (buf ++ chunk)).2 chunks).1,
        (feed (d.drain (buf ++ chunk)).2 chunks).2)

/-- Chunks may be fed in one go or in several. -/
theorem feed_append (buf : List τ) (cs ds : List (List τ)) :
    d.feed buf (cs ++ ds) =
      ((d.feed buf cs).1 ++ (d.feed (d.feed buf cs).2 ds).1, (d.feed (d.feed buf cs).2 ds).2) := by
  induction cs generalizing buf with
  | nil => rfl
  | cons c cs ih =>
    simp only [List.cons_append, feed, ih, List.append_assoc]

/-- **The chunks do not matter**: feeding them is draining what they add up to,
provided the buffer held no item to begin with. -/
theorem feed_eq_drain {buf : List τ} (h : d.next buf = none) (chunks : List (List τ)) :
    d.feed buf chunks = d.drain (buf ++ chunks.flatten) := by
  induction chunks generalizing buf with
  | nil => rw [List.flatten_nil, List.append_nil, d.drain_of_none h, feed]
  | cons chunk chunks ih =>
    rw [feed, ih (d.next_leftover _), List.flatten_cons, ← List.append_assoc,
      d.drain_append (buf ++ chunk)]

/-- **Draining encoded items gives them back**, if each is taken off the front of
whatever follows its encoding. -/
theorem drain_flatMap {encode : ι → List τ} {items : List ι} (hnil : d.next [] = none)
    (h : ∀ item ∈ items, ∀ more, d.next (encode item ++ more) = some (item, more)) :
    d.drain (items.flatMap encode) = (items, []) := by
  induction items with
  | nil => rw [List.flatMap_nil, d.drain_of_none hnil]
  | cons item items ih =>
    rw [List.flatMap_cons, d.drain_of_some (h item List.mem_cons_self _),
      ih fun i hi => h i (List.mem_cons_of_mem _ hi)]

end StreamDecoder
