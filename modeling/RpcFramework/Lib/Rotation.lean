import Mathlib.Data.List.Nodup
import Mathlib.Data.List.Perm.Subperm
import Mathlib.Data.Nat.ModEq
import Mathlib.Tactic.Common

/-!
# Taking turns

A counter that is read modulo `n` and counted up names each of `n` places once in `n` readings,
wherever it stands.  If only some of its readings are looked at, they name each place once in
`n` of them just if no two that are so close to each other are a multiple of `n` apart.

## Main definitions

* `Windows` — what holds of every so many neighbours of a list.
* `Apart` — no two numbers of a list are congruent.

## Main results

* `perm_range_iff_apart` — **the residues of `n` numbers are all the residues** just if the
  numbers are apart.
* `perm_of_perm_range` — places that are each named once take each entry of a list once.
* `windows_apart_range` — the readings of a counter, if all of them are looked at.
-/

variable {α β : Type*}

/-- What holds of every `n` neighbours of a list. -/
def Windows (n : ℕ) (P : List α → Prop) (l : List α) : Prop :=
  ∀ i, i + n ≤ l.length → P ((l.drop i).take n)

/-- No two of the numbers are congruent. -/
def Apart (n : ℕ) (l : List ℕ) : Prop := l.Pairwise fun a b => ¬ a ≡ b [MOD n]

instance (n : ℕ) (l : List ℕ) : Decidable (Apart n l) :=
  inferInstanceAs (Decidable (List.Pairwise _ l))

section Windows

variable {n : ℕ} {P Q : List α → Prop} {l : List α}

theorem windows_map {R : List β → Prop} (f : α → β) :
    Windows n R (l.map f) ↔ Windows n (fun w => R (w.map f)) l := by
  unfold Windows
  simp only [List.length_map, List.map_take, List.map_drop]

/-- It is enough to compare what is said of lists of that length. -/
theorem windows_congr (h : ∀ w ⊆ l, w.length = n → (P w ↔ Q w)) :
    Windows n P l ↔ Windows n Q l := by
  refine forall₂_congr fun i hi => h _ ?_ ?_
  · exact List.Subset.trans (List.take_subset _ _) (List.drop_subset _ _)
  · rw [List.length_take, List.length_drop]
    omega

end Windows

/-- If all entries are looked at, their numbers are all numbers. -/
theorem findIdxs_eq_range' {p : α → Bool} {l : List α} (h : ∀ x ∈ l, p x = true) (start : ℕ) :
    l.findIdxs p start = List.range' start l.length := by
  induction l generalizing start with
  | nil => rfl
  | cons x l ih =>
    rw [List.forall_mem_cons] at h
    rw [List.findIdxs_cons, if_pos h.1, ih h.2, List.length_cons, List.range'_succ]

section Apart

variable {n : ℕ} {l : List ℕ}

/-- Counting from elsewhere changes nothing. -/
theorem apart_map_add (c : ℕ) : Apart n (l.map (· + c)) ↔ Apart n l := by
  unfold Apart
  rw [List.pairwise_map]
  refine List.Pairwise.iff fun a b => not_congr ?_
  exact ⟨Nat.ModEq.add_right_cancel' c, Nat.ModEq.add_right c⟩

theorem nodup_map_mod_iff : (l.map (· % n)).Nodup ↔ Apart n l := by
  rw [List.Nodup, List.pairwise_map]
  rfl

/-- **The residues of `n` numbers are all the residues** exactly if the numbers are apart. -/
theorem perm_range_iff_apart : ∀ {l : List ℕ}, l.length = n →
    ((l.map (· % n)).Perm (List.range n) ↔ Apart n l) := by
  intro l hlength
  rw [← nodup_map_mod_iff]
  constructor
  · intro hperm
    exact hperm.nodup_iff.mpr List.nodup_range
  · intro hnodup
    have hsubset : l.map (· % n) ⊆ List.range n := by
      intro x hx
      obtain ⟨k, hk, rfl⟩ := List.mem_map.mp hx
      have hpos : 0 < n := hlength ▸ List.length_pos_of_mem hk
      exact List.mem_range.mpr (Nat.mod_lt k hpos)
    refine (List.subperm_of_subset hnodup hsubset).perm_of_length_le ?_
    rw [List.length_map, List.length_range, hlength]

/-- Places that are each named once take each entry of a list once. -/
theorem perm_of_perm_range : ∀ {l es : List α} {places : List ℕ},
    es.map some = places.map (l[·]?) → places.Perm (List.range l.length) → es.Perm l := by
  intro l es places hget hperm
  have hall : (List.range l.length).map (l[·]?) = l.map some := by
    refine List.ext_getElem (by simp) fun i hi _ => ?_
    rw [List.length_map, List.length_range] at hi
    rw [List.getElem_map, List.getElem_map, List.getElem_range, List.getElem?_eq_getElem hi]
  refine (List.map_perm_map_iff (Option.some_injective α)).mp ?_
  rw [hget, ← hall]
  exact hperm.map _

/-- **A counter that is always looked at** names each place once in `n` readings. -/
theorem windows_apart_range (n m : ℕ) : Windows n (Apart n) (List.range m) := by
  intro i hi
  rw [List.length_range] at hi
  rw [List.range_eq_range', List.drop_range', List.take_range'_of_length_ge (by omega)]
  refine List.Pairwise.imp_of_mem ?_ List.pairwise_lt_range'
  intro a b ha hb hlt hmod
  rw [List.mem_range'_1] at ha hb
  have hdvd := (Nat.modEq_iff_dvd' hlt.le).mp hmod
  have hle := Nat.le_of_dvd (by omega) hdvd
  omega

end Apart
