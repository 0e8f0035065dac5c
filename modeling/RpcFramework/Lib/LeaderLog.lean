import Mathlib.Data.Int.Notation
import Mathlib.Data.List.Basic
import Mathlib.Tactic.Common

/-!
# The logs of leaders

In a replicated log every term has at most one leader, whose log grows by its own entries
alone while it leads.  An entry of a term therefore settles everything before it: a log
that has the entry agrees up to it with the log of that term's leader.  Logs with this
property match each other.

## Main definitions

* `LogFact` — what happens to replicated logs.
* `leaderLog` — the log of a term's leader.
* `UpToDate` — how the logs of a voter and of a candidate are compared.
* `Conforms` — a log that agrees with the leaders of its entries.

## Main results

* `Conforms.take_eq` — **log matching.**
-/

/-- What happens to replicated logs, at the nodes `ι`, with entries `α`. -/
inductive LogFact (ι α : Type*) where
  | voted (voter : ι) (term : ℤ) (candidate : ι) (log : List α)
  | elected (leader : ι) (term : ℤ) (log : List α)
  | proposed (leader : ι) (entry : α)
  | accepted (node : ι) (term : ℤ) (log : List α)

section LeaderLog

variable {ι α : Type*} (term : α → ℤ)

/-- The log of the leader of the term: the log it was elected with and the entries of the
term, the latest fact first. -/
def leaderLog : List (LogFact ι α) → ℤ → List α
  | [], _ => []
  | .elected _ T log :: h, U => if T = U then log else leaderLog h U
  | .proposed _ e :: h, U => if term e = U then leaderLog h U ++ [e] else leaderLog h U
  | .voted .. :: h, U => leaderLog h U
  | .accepted .. :: h, U => leaderLog h U

variable {term} {h : List (LogFact ι α)} {i : ι} {T U : ℤ} {log : List α} {e : α}

@[simp] theorem leaderLog_nil : leaderLog term ([] : List (LogFact ι α)) U = [] := rfl

@[simp] theorem leaderLog_voted {c : ι} :
    leaderLog term (.voted i T c log :: h) U = leaderLog term h U := rfl

@[simp] theorem leaderLog_accepted :
    leaderLog term (.accepted i T log :: h) U = leaderLog term h U := rfl

theorem leaderLog_elected : leaderLog term (.elected i T log :: h) U =
    if T = U then log else leaderLog term h U := rfl

theorem leaderLog_proposed : leaderLog term (.proposed i e :: h) U =
    if term e = U then leaderLog term h U ++ [e] else leaderLog term h U := rfl

/-- The term of the last entry, zero without entries. -/
def lastTerm (term : α → ℤ) (l : List α) : ℤ := l.getLast?.elim 0 term

/-- The candidate's log is at least as up to date as the voter's. -/
def UpToDate (term : α → ℤ) (voter candidate : List α) : Prop :=
  lastTerm term voter < lastTerm term candidate ∨
    lastTerm term candidate = lastTerm term voter ∧ voter.length ≤ candidate.length

/-- A term without a leader and without entries has no log. -/
theorem leaderLog_eq_nil (helected : ∀ i log, .elected i U log ∉ h)
    (hproposed : ∀ i e, .proposed i e ∈ h → term e ≠ U) : leaderLog term h U = [] := by
  induction h with
  | nil => rfl
  | cons f h ih =>
    have hrest := ih (fun i log hmem => helected i log (List.mem_cons_of_mem f hmem))
      (fun i e hmem => hproposed i e (List.mem_cons_of_mem f hmem))
    cases f with
    | voted | accepted => exact hrest
    | elected i T log =>
      rw [leaderLog_elected, if_neg ?_, hrest]
      rintro rfl
      exact helected i log List.mem_cons_self
    | proposed i e =>
      rw [leaderLog_proposed, if_neg (hproposed i e List.mem_cons_self), hrest]

/-- An election takes nothing away, if the term had no log. -/
theorem leaderLog_prefix_elected (hnew : leaderLog term h T = []) (U : ℤ) :
    leaderLog term h U <+: leaderLog term (.elected i T log :: h) U := by
  rw [leaderLog_elected]
  split
  · next heq =>
    rw [← heq, hnew]
    exact List.nil_prefix
  · exact List.prefix_refl _

/-- A proposal takes nothing away. -/
theorem leaderLog_prefix_proposed (U : ℤ) :
    leaderLog term h U <+: leaderLog term (.proposed i e :: h) U := by
  rw [leaderLog_proposed]
  split
  · exact List.prefix_append _ _
  · exact List.prefix_refl _

end LeaderLog

section Conforms

variable {α : Type*} (term : α → ℤ)

/-- Up to each of its entries, the log is the log of the leader of the entry's term. -/
def Conforms (canon : ℤ → List α) (l : List α) : Prop :=
  ∀ p e, l[p]? = some e → l.take (p + 1) <+: canon (term e)

variable {term} {canon canon' : ℤ → List α} {l l' : List α}

/-- What is in a log is in every log that begins with it. -/
theorem getElem?_mono (hpre : l <+: l') {p : ℕ} {e : α} (he : l[p]? = some e) :
    l'[p]? = some e := by
  obtain ⟨hlt, rfl⟩ := List.getElem?_eq_some_iff.mp he
  rw [hpre.getElem hlt]
  exact List.getElem?_eq_getElem _

theorem conforms_nil : Conforms term canon [] := by
  intro p e he
  simp at he

theorem Conforms.mono (hl : Conforms term canon l) (hle : ∀ T, canon T <+: canon' T) :
    Conforms term canon' l :=
  fun p e he => (hl p e he).trans (hle (term e))

theorem Conforms.initial (hl : Conforms term canon l) (hpre : l' <+: l) :
    Conforms term canon l' := by
  obtain ⟨r, rfl⟩ := hpre
  intro p e he
  obtain ⟨hlt, -⟩ := List.getElem?_eq_some_iff.mp he
  have hl' := hl p e (by rw [List.getElem?_append_left hlt, he])
  rwa [List.take_append_of_le_length (by omega)] at hl'

/-- **Log matching**: two logs with entries of one term at one position agree up to it. -/
theorem Conforms.take_eq (hl : Conforms term canon l) (hl' : Conforms term canon l') {p : ℕ}
    {e e' : α} (he : l[p]? = some e) (he' : l'[p]? = some e') (hterm : term e = term e') :
    l.take (p + 1) = l'.take (p + 1) := by
  have h1 := hl p e he
  have h2 := hl' p e' he'
  rw [hterm] at h1
  obtain ⟨hlt, -⟩ := List.getElem?_eq_some_iff.mp he
  obtain ⟨hlt', -⟩ := List.getElem?_eq_some_iff.mp he'
  have hlen : (l.take (p + 1)).length = (l'.take (p + 1)).length := by
    simp only [List.length_take]
    omega
  exact (List.prefix_of_prefix_length_le h1 h2 (Nat.le_of_eq hlen)).eq_of_length hlen

/-- A log that conforms is the beginning of the log of its last entry's leader. -/
theorem Conforms.prefix_canon (hl : Conforms term canon l) {e : α} (he : l.getLast? = some e) :
    l <+: canon (term e) := by
  have hne : l ≠ [] := by
    rintro rfl
    simp at he
  have hlen := List.length_pos_iff.mpr hne
  have hpre := hl (l.length - 1) e (by rw [← List.getLast?_eq_getElem?, he])
  rwa [List.take_of_length_le (by omega)] at hpre

/-- An entry of a log that conforms is in the log of its leader. -/
theorem Conforms.mem_canon (hl : Conforms term canon l) {e : α} (he : e ∈ l) :
    e ∈ canon (term e) := by
  obtain ⟨p, hp⟩ := List.mem_iff_getElem?.mp he
  refine (hl p e hp).subset (List.mem_iff_getElem?.mpr ⟨p, ?_⟩)
  rw [List.getElem?_take_of_lt (Nat.lt_succ_self p), hp]

/-- A leader's new entry. -/
theorem Conforms.concat (hl : Conforms term canon l) {e : α}
    (hpre : l ++ [e] <+: canon (term e)) : Conforms term canon (l ++ [e]) := by
  intro p e' he
  rcases Nat.lt_or_ge p l.length with hlt | hge
  · rw [List.getElem?_append_left hlt] at he
    rw [List.take_append_of_le_length (by omega)]
    exact hl p e' he
  · rw [List.getElem?_append_right hge] at he
    obtain ⟨hlt, hget⟩ := List.getElem?_eq_some_iff.mp he
    have hp : p = l.length := by simp at hlt; omega
    subst hp
    have he' : e' = e := by simpa using hget.symm
    subst he'
    rw [List.take_of_length_le (by simp)]
    exact hpre

end Conforms
