import Mathlib.Data.Finset.Card
import Mathlib.Tactic.Common
import RpcFramework.Lib.LeaderLog
import RpcFramework.Lib.Majority

/-!
# Consensus on a log

The protocol behind a replicated log, without messages: nodes learn of later terms, vote
once in a term, are elected by a majority of nodes whose logs theirs is up to date with,
append entries of their term to their logs, and accept the log of a leader of a term that
is not behind theirs.  A node that accepts a log does not shorten a log it already
extends.

What a majority has accepted from the leader of a term, and ends in an entry of that term,
is chosen: every later leader is elected with it.

## Main definitions

* `Replicas`, `Replicas.Step` — the protocol.
* `Replicas.Inv` — its invariant.
* `Replicas.Chosen`, `Replicas.Certified` — what is settled, and what is known to be.

## Main results

* `Replicas.Inv.step` — **the invariant is kept by every step.**
* `Replicas.Inv.leader_complete` — later leaders have what was chosen.
* `Replicas.Inv.chosen_comparable` — **what is chosen agrees.**
* `Replicas.Inv.certified_prefix` — a leader's log has what is known to be settled.
-/

/-- The terms and the logs of the nodes, and what came to pass, the latest first. -/
structure Replicas (ι α : Type*) where
  terms : ι → ℤ
  logs : ι → List α
  facts : List (LogFact ι α)

namespace Replicas

variable {ι α : Type*}

/-- The state after node `i` has changed its term and its log, and `facts` came to pass. -/
def set [DecidableEq ι] (s : Replicas ι α) (i : ι) (T : ℤ) (log : List α)
    (facts : List (LogFact ι α)) : Replicas ι α where
  terms := Function.update s.terms i T
  logs := Function.update s.logs i log
  facts := facts ++ s.facts

/-- The protocol. -/
inductive Step [DecidableEq ι] (term : α → ℤ) (members : Finset ι) (s : Replicas ι α) :
    Replicas ι α → Prop where
  | advance (i : ι) (T : ℤ) (hT : s.terms i ≤ T) : Step term members s (s.set i T (s.logs i) [])
  | vote (v c : ι) (T : ℤ) (hT : s.terms v ≤ T)
      (honce : ∀ c' log, .voted v T c' log ∈ s.facts → c' = c) :
      Step term members s (s.set v T (s.logs v) [.voted v T c (s.logs v)])
  | win (c : ι) (Q : Finset ι) (hpos : 0 < s.terms c) (hQ : IsMajority members Q)
      (hvotes : ∀ v ∈ Q, ∃ log, .voted v (s.terms c) c log ∈ s.facts ∧
        UpToDate term log (s.logs c))
      (hfresh : ∀ log, .elected c (s.terms c) log ∉ s.facts) :
      Step term members s
        (s.set c (s.terms c) (s.logs c) [.elected c (s.terms c) (s.logs c)])
  | propose (c : ι) (e : α) (hterm : term e = s.terms c)
      (hled : ∃ log, .elected c (s.terms c) log ∈ s.facts)
      (hlog : s.logs c = leaderLog term s.facts (s.terms c)) :
      Step term members s (s.set c (s.terms c) (s.logs c ++ [e]) [.proposed c e])
  | replace (j c : ι) (T : ℤ) (E S : List α) (hT : s.terms j ≤ T)
      (hled : .elected c T E ∈ s.facts) (hE : E <+: S) (hS : S <+: leaderLog term s.facts T)
      (hkeep : S <+: s.logs j → s.logs j = S) :
      Step term members s (s.set j T S [.accepted j T S])
  | keep (j c : ι) (T : ℤ) (E S : List α) (hT : s.terms j ≤ T)
      (hled : .elected c T E ∈ s.facts) (hE : E <+: S) (hS : S <+: leaderLog term s.facts T)
      (hlog : S <+: s.logs j) :
      Step term members s (s.set j T (s.logs j) [.accepted j T S])

/-! ### The invariant -/

/-- Somebody was elected in the term. -/
def Led (F : List (LogFact ι α)) (T : ℤ) : Prop := ∃ c log, .elected c T log ∈ F

/-- Node `j` had the log `X` of the leader of term `T` while it was in that term: it
accepted it, or was that leader. -/
def Acked (term : α → ℤ) (F : List (LogFact ι α)) (j : ι) (T : ℤ) (X : List α) : Prop :=
  (∃ S, .accepted j T S ∈ F ∧ X <+: S) ∨ (∃ E, .elected j T E ∈ F) ∧ X <+: leaderLog term F T

theorem Acked.initial {term : α → ℤ} {F : List (LogFact ι α)} {j : ι} {T : ℤ} {X Y : List α}
    (hX : Acked term F j T X) (hYX : Y <+: X) : Acked term F j T Y := by
  rcases hX with ⟨S, hS, hXS⟩ | ⟨hled, hcanon⟩
  · exact Or.inl ⟨S, hS, hYX.trans hXS⟩
  · exact Or.inr ⟨hled, hYX.trans hcanon⟩

/-- A leader of a term after `T`, and no later than `U`, was elected without `X`. -/
def Lost (F : List (LogFact ι α)) (T U : ℤ) (X : List α) : Prop :=
  ∃ c V E, .elected c V E ∈ F ∧ T < V ∧ V ≤ U ∧ ¬ X <+: E

/-- A majority of nodes voted for `c`, each with a log that `E` is up to date with and that
has what the node acknowledged in earlier terms, unless a leader before was elected without
it. -/
def Backed (term : α → ℤ) (members : Finset ι) (F : List (LogFact ι α)) (c : ι) (U : ℤ)
    (E : List α) : Prop :=
  ∃ Q, IsMajority members Q ∧ ∀ v ∈ Q, ∃ log, .voted v U c log ∈ F ∧ UpToDate term log E ∧
    ∀ T X, T < U → Acked term F v T X → X <+: log ∨ Lost F T (U - 1) X

structure Inv (term : α → ℤ) (members : Finset ι) (s : Replicas ι α) : Prop where
  conforms : ∀ i, Conforms term (leaderLog term s.facts) (s.logs i)
  term_le : ∀ i, ∀ e ∈ s.logs i, term e ≤ s.terms i
  canon_conforms : ∀ T, Conforms term (leaderLog term s.facts) (leaderLog term s.facts T)
  canon_le : ∀ T, ∀ e ∈ leaderLog term s.facts T, term e ≤ T
  canon_led : ∀ T, leaderLog term s.facts T ≠ [] → Led s.facts T
  voted_le : ∀ v T c log, .voted v T c log ∈ s.facts → T ≤ s.terms v
  voted_once : ∀ v T c c' log log', .voted v T c log ∈ s.facts → .voted v T c' log' ∈ s.facts →
    c = c'
  voted_conforms : ∀ v T c log, .voted v T c log ∈ s.facts →
    Conforms term (leaderLog term s.facts) log
  voted_kept : ∀ v U c log, .voted v U c log ∈ s.facts → ∀ T X, T < U → Acked term s.facts v T X →
    X <+: log ∨ Lost s.facts T U X
  elected_pos : ∀ c T E, .elected c T E ∈ s.facts → 0 < T
  elected_canon : ∀ c T E, .elected c T E ∈ s.facts → E <+: leaderLog term s.facts T
  elected_lt : ∀ c T E, .elected c T E ∈ s.facts → ∀ e ∈ E, term e < T
  elected_backed : ∀ c T E, .elected c T E ∈ s.facts → Backed term members s.facts c T E
  accepted_led : ∀ j T S, .accepted j T S ∈ s.facts → Led s.facts T
  acked_le : ∀ j T X, Acked term s.facts j T X → T ≤ s.terms j
  acked_canon : ∀ j T X, Acked term s.facts j T X → X <+: leaderLog term s.facts T
  acked_kept : ∀ j T X, Acked term s.facts j T X → X <+: s.logs j ∨ Lost s.facts T (s.terms j) X

section

variable {term : α → ℤ} {members : Finset ι} {s : Replicas ι α} {T : ℤ}

/-- The nodes before anything came to pass. -/
def start : Replicas ι α where
  terms _ := 0
  logs _ := []
  facts := []

theorem inv_start : Inv term members (start : Replicas ι α) where
  conforms _ := conforms_nil
  term_le _ _ h := absurd h List.not_mem_nil
  canon_conforms _ := conforms_nil
  canon_le _ _ h := absurd h List.not_mem_nil
  canon_led _ h := absurd rfl h
  voted_le _ _ _ _ h := absurd h List.not_mem_nil
  voted_once _ _ _ _ _ _ h := absurd h List.not_mem_nil
  voted_conforms _ _ _ _ h := absurd h List.not_mem_nil
  voted_kept _ _ _ _ h := absurd h List.not_mem_nil
  elected_pos _ _ _ h := absurd h List.not_mem_nil
  elected_canon _ _ _ h := absurd h List.not_mem_nil
  elected_lt _ _ _ h := absurd h List.not_mem_nil
  elected_backed _ _ _ h := absurd h List.not_mem_nil
  accepted_led _ _ _ h := absurd h List.not_mem_nil
  acked_le _ _ _ h := by
    rcases h with ⟨S, hS, -⟩ | ⟨⟨E, hE⟩, -⟩
    · exact absurd hS List.not_mem_nil
    · exact absurd hE List.not_mem_nil
  acked_canon _ _ _ h := by
    rcases h with ⟨S, hS, -⟩ | ⟨-, hX⟩
    · exact absurd hS List.not_mem_nil
    · exact hX
  acked_kept _ _ _ h := by
    rcases h with ⟨S, hS, -⟩ | ⟨⟨E, hE⟩, -⟩
    · exact absurd hS List.not_mem_nil
    · exact absurd hE List.not_mem_nil

/-- A term nobody led has no log. -/
theorem Inv.leaderLog_eq_nil_of_not_led (hs : Inv term members s) {U : ℤ}
    (hnot : ¬ Led s.facts U) : leaderLog term s.facts U = [] := by
  by_contra hne
  exact hnot (hs.canon_led U hne)

/-- The entries of a node whose term nobody led are of earlier terms. -/
theorem Inv.term_lt_of_not_led (hs : Inv term members s) {i : ι}
    (hnot : ¬ Led s.facts (s.terms i)) :
    ∀ e ∈ s.logs i, term e < s.terms i := by
  intro e he
  refine lt_of_le_of_ne (hs.term_le i e he) fun heq => ?_
  have hmem := (hs.conforms i).mem_canon he
  rw [heq, hs.leaderLog_eq_nil_of_not_led hnot] at hmem
  exact List.not_mem_nil hmem

/-- What a node has of an earlier acknowledgement, the log of a leader has too, unless it
was elected without. -/
theorem prefix_of_leader {i c : ι} {E S X : List α} {U : ℤ}
    (hUT : U ≤ T) (hled : .elected c T E ∈ s.facts) (hE : E <+: S)
    (hS : S <+: leaderLog term s.facts T)
    (hkeep : S <+: s.logs i → s.logs i = S) (hX : X <+: leaderLog term s.facts U)
    (hlog : X <+: s.logs i) : X <+: S ∨ Lost s.facts U T X := by
  rcases lt_or_eq_of_le hUT with hlt | rfl
  · by_cases hXE : X <+: E
    · exact Or.inl (hXE.trans hE)
    · exact Or.inr ⟨c, T, E, hled, hlt, le_refl _, hXE⟩
  · refine Or.inl ?_
    rcases List.prefix_or_prefix_of_prefix hX hS with hXS | hSX
    · exact hXS
    · -- the log extends what is accepted, so it is what is accepted
      rw [← hkeep (hSX.trans hlog)]
      exact hlog

end

section Steps

variable [DecidableEq ι] {term : α → ℤ} {members : Finset ι} {s : Replicas ι α} {i : ι} {T : ℤ}
  {log : List α} {F : List (LogFact ι α)}

@[simp] theorem facts_set : (s.set i T log F).facts = F ++ s.facts := rfl

@[simp] theorem terms_set_self : (s.set i T log F).terms i = T := by
  simp only [set, Function.update_self]

@[simp] theorem logs_set_self : (s.set i T log F).logs i = log := by
  simp only [set, Function.update_self]

theorem terms_set_of_ne {j : ι} (h : j ≠ i) : (s.set i T log F).terms j = s.terms j := by
  simp only [set, Function.update_of_ne h]

theorem logs_set_of_ne {j : ι} (h : j ≠ i) : (s.set i T log F).logs j = s.logs j := by
  simp only [set, Function.update_of_ne h]

theorem le_terms_set (hT : s.terms i ≤ T) (j : ι) : s.terms j ≤ (s.set i T log F).terms j := by
  by_cases hj : j = i
  · subst hj
    rw [terms_set_self]
    exact hT
  · rw [terms_set_of_ne hj]

theorem mem_facts_set {f : LogFact ι α} (h : f ∈ s.facts) : f ∈ (s.set i T log F).facts :=
  List.mem_append_right F h

theorem Led.set {U : ℤ} (h : Led s.facts U) : Led (s.set i T log F).facts U := by
  obtain ⟨c, E, hmem⟩ := h
  exact ⟨c, E, mem_facts_set hmem⟩

theorem Lost.set {U V : ℤ} {X : List α} (h : Lost s.facts U V X) {V' : ℤ} (hV : V ≤ V') :
    Lost (s.set i T log F).facts U V' X := by
  obtain ⟨c, W, E, hmem, hlt, hle, hX⟩ := h
  exact ⟨c, W, E, mem_facts_set hmem, hlt, hle.trans hV, hX⟩

/-- After a step a node has acknowledged what it had before, what it accepts in the step, and
what it has as the leader that the step makes it. -/
theorem acked_set {j : ι} {U : ℤ} {X : List α}
    (h : Acked term (s.set i T log F).facts j U X) :
    (∃ S, .accepted j U S ∈ s.facts ∧ X <+: S) ∨
      (∃ E, .elected j U E ∈ s.facts) ∧ X <+: leaderLog term (s.set i T log F).facts U ∨
      (∃ S, .accepted j U S ∈ F ∧ X <+: S) ∨
      (∃ E, .elected j U E ∈ F) ∧ X <+: leaderLog term (s.set i T log F).facts U := by
  rcases h with ⟨S, hS, hX⟩ | ⟨⟨E, hE⟩, hX⟩
  · rcases List.mem_append.mp hS with hnew | hold
    · exact Or.inr (Or.inr (Or.inl ⟨S, hnew, hX⟩))
    · exact Or.inl ⟨S, hold, hX⟩
  · rcases List.mem_append.mp hE with hnew | hold
    · exact Or.inr (Or.inr (Or.inr ⟨⟨E, hnew⟩, hX⟩))
    · exact Or.inr (Or.inl ⟨⟨E, hold⟩, hX⟩)

/-- What a step of node `i` to term `T` and log `log` has to bring for the invariant to be
kept: what it adds to the logs of leaders is its log, and so is what it acknowledges. -/
structure Keeps (term : α → ℤ) (members : Finset ι) (s : Replicas ι α) (i : ι) (T : ℤ)
    (log : List α) (F : List (LogFact ι α)) : Prop where
  le_term : s.terms i ≤ T
  conforms : Conforms term (leaderLog term (s.set i T log F).facts) log
  term_le : ∀ e ∈ log, term e ≤ T
  canon_eq : ∀ U, leaderLog term (s.set i T log F).facts U = leaderLog term s.facts U ∨
    U = T ∧ leaderLog term s.facts U <+: log ∧ leaderLog term (s.set i T log F).facts U = log ∧
      Led (s.set i T log F).facts U
  voted : ∀ v U c l, .voted v U c l ∈ F → v = i ∧ U = T ∧ l = s.logs i ∧
    ∀ c' l', .voted v U c' l' ∈ F ++ s.facts → c' = c
  elected : ∀ c U E, .elected c U E ∈ F → 0 < U ∧ E <+: leaderLog term (s.set i T log F).facts U ∧
    (∀ e ∈ E, term e < U) ∧ Backed term members s.facts c U E
  accepted : ∀ j U S, .accepted j U S ∈ F → Led s.facts U
  acked : ∀ j U X, Acked term (s.set i T log F).facts j U X → Acked term s.facts j U X ∨
    j = i ∧ U = T ∧ X <+: leaderLog term (s.set i T log F).facts T ∧ X <+: log
  kept : ∀ U X, Acked term s.facts i U X → X <+: s.logs i → X <+: log ∨
    Lost (s.set i T log F).facts U T X

theorem Keeps.grow (hk : Keeps term members s i T log F) (U : ℤ) :
    leaderLog term s.facts U <+: leaderLog term (s.set i T log F).facts U := by
  rcases hk.canon_eq U with heq | ⟨-, hpre, heq, -⟩
  · rw [heq]
  · rw [heq]
    exact hpre

/-- Who backed a leader still does: nobody acknowledges a term before its last vote. -/
theorem Keeps.backed (hk : Keeps term members s i T log F) (hs : Inv term members s) {c : ι}
    {U : ℤ} {E : List α} (hb : Backed term members s.facts c U E) :
    Backed term members (s.set i T log F).facts c U E := by
  obtain ⟨Q, hQ, hvotes⟩ := hb
  refine ⟨Q, hQ, fun v hv => ?_⟩
  obtain ⟨l, hl, hup, hkept⟩ := hvotes v hv
  refine ⟨l, mem_facts_set hl, hup, fun T' X hlt hack => ?_⟩
  rcases hk.acked v T' X hack with hold | ⟨rfl, rfl, -, -⟩
  · exact (hkept T' X hlt hold).imp_right fun hlost => hlost.set (le_refl _)
  · have hle := hs.voted_le v U c l hl
    have hT := hk.le_term
    omega

/-- **The step rule.** -/
theorem Inv.set (hs : Inv term members s) (hk : Keeps term members s i T log F) :
    Inv term members (s.set i T log F) where
  conforms j := by
    by_cases hj : j = i
    · subst hj
      rw [logs_set_self]
      exact hk.conforms
    · rw [logs_set_of_ne hj]
      exact (hs.conforms j).mono hk.grow
  term_le j := by
    by_cases hj : j = i
    · subst hj
      rw [logs_set_self, terms_set_self]
      exact hk.term_le
    · rw [logs_set_of_ne hj, terms_set_of_ne hj]
      exact hs.term_le j
  canon_conforms U := by
    rcases hk.canon_eq U with heq | ⟨-, -, heq, -⟩
    · rw [heq]
      exact (hs.canon_conforms U).mono hk.grow
    · rw [heq]
      exact hk.conforms
  canon_le U e he := by
    rcases hk.canon_eq U with heq | ⟨rfl, -, heq, -⟩
    · rw [heq] at he
      exact hs.canon_le U e he
    · rw [heq] at he
      exact hk.term_le e he
  canon_led U hne := by
    rcases hk.canon_eq U with heq | ⟨-, -, -, hled⟩
    · rw [heq] at hne
      exact (hs.canon_led U hne).set
    · exact hled
  voted_le v U c l hl := by
    rcases List.mem_append.mp hl with hnew | hold
    · obtain ⟨rfl, rfl, -, -⟩ := hk.voted v U c l hnew
      rw [terms_set_self]
    · exact (hs.voted_le v U c l hold).trans (le_terms_set hk.le_term v)
  voted_once v U c c' l l' hl hl' := by
    rcases List.mem_append.mp hl with hnew | hold
    · exact ((hk.voted v U c l hnew).2.2.2 c' l' hl').symm
    · rcases List.mem_append.mp hl' with hnew' | hold'
      · exact (hk.voted v U c' l' hnew').2.2.2 c l hl
      · exact hs.voted_once v U c c' l l' hold hold'
  voted_conforms v U c l hl := by
    rcases List.mem_append.mp hl with hnew | hold
    · obtain ⟨rfl, -, rfl, -⟩ := hk.voted v U c l hnew
      exact (hs.conforms v).mono hk.grow
    · exact (hs.voted_conforms v U c l hold).mono hk.grow
  voted_kept v U c l hl T' X hlt hack := by
    have hT := hk.le_term
    rcases hk.acked v T' X hack with hack' | ⟨rfl, rfl, -, -⟩
    · rcases List.mem_append.mp hl with hnew | hold
      · -- the vote is cast with the log the node has
        obtain ⟨rfl, rfl, rfl, -⟩ := hk.voted v U c l hnew
        exact (hs.acked_kept v T' X hack').imp_right fun hlost => hlost.set hT
      · exact (hs.voted_kept v U c l hold T' X hlt hack').imp_right fun hlost =>
          hlost.set (le_refl _)
    · -- it acknowledges in the term it goes on to, and no vote is of a later one
      rcases List.mem_append.mp hl with hnew | hold
      · obtain ⟨-, rfl, -, -⟩ := hk.voted v U c l hnew
        omega
      · have hle := hs.voted_le v U c l hold
        omega
  elected_pos c U E hE := by
    rcases List.mem_append.mp hE with hnew | hold
    · exact (hk.elected c U E hnew).1
    · exact hs.elected_pos c U E hold
  elected_canon c U E hE := by
    rcases List.mem_append.mp hE with hnew | hold
    · exact (hk.elected c U E hnew).2.1
    · exact (hs.elected_canon c U E hold).trans (hk.grow U)
  elected_lt c U E hE := by
    rcases List.mem_append.mp hE with hnew | hold
    · exact (hk.elected c U E hnew).2.2.1
    · exact hs.elected_lt c U E hold
  elected_backed c U E hE := by
    rcases List.mem_append.mp hE with hnew | hold
    · exact hk.backed hs (hk.elected c U E hnew).2.2.2
    · exact hk.backed hs (hs.elected_backed c U E hold)
  accepted_led j U S hS := by
    rcases List.mem_append.mp hS with hnew | hold
    · exact (hk.accepted j U S hnew).set
    · exact (hs.accepted_led j U S hold).set
  acked_le j U X hack := by
    rcases hk.acked j U X hack with hold | ⟨rfl, rfl, -, -⟩
    · exact (hs.acked_le j U X hold).trans (le_terms_set hk.le_term j)
    · rw [terms_set_self]
  acked_canon j U X hack := by
    rcases hk.acked j U X hack with hold | ⟨-, rfl, hX, -⟩
    · exact (hs.acked_canon j U X hold).trans (hk.grow U)
    · exact hX
  acked_kept j U X hack := by
    rcases hk.acked j U X hack with hold | ⟨rfl, rfl, -, hX⟩
    · by_cases hj : j = i
      · subst hj
        rw [logs_set_self, terms_set_self]
        rcases hs.acked_kept j U X hold with hX | hlost
        · exact hk.kept U X hold hX
        · exact Or.inr (hlost.set hk.le_term)
      · rw [logs_set_of_ne hj, terms_set_of_ne hj]
        exact (hs.acked_kept j U X hold).imp_right fun hlost => hlost.set (le_refl _)
    · rw [logs_set_self]
      exact Or.inl hX

/-! ### The rules -/

/-- Two leaders of a term are the same. -/
theorem Inv.leader_unique (hs : Inv term members s) {c c' : ι} {U : ℤ} {E E' : List α}
    (h : .elected c U E ∈ s.facts) (h' : .elected c' U E' ∈ s.facts) : c = c' := by
  obtain ⟨Q, hQ, hvotes⟩ := hs.elected_backed c U E h
  obtain ⟨Q', hQ', hvotes'⟩ := hs.elected_backed c' U E' h'
  obtain ⟨v, hv, hv'⟩ := hQ.exists_common hQ'
  obtain ⟨l, hl, -⟩ := hvotes v hv
  obtain ⟨l', hl', -⟩ := hvotes' v hv'
  exact hs.voted_once v U c c' l l' hl hl'

/-- Nobody led the term a candidate wins. -/
theorem Inv.not_led_of_win (hs : Inv term members s) {c : ι} {U : ℤ} {Q : Finset ι}
    (hQ : IsMajority members Q) (hvotes : ∀ v ∈ Q, ∃ l, .voted v U c l ∈ s.facts)
    (hfresh : ∀ E, .elected c U E ∉ s.facts) : ¬ Led s.facts U := by
  rintro ⟨c', E, hE⟩
  obtain ⟨Q', hQ', hvotes'⟩ := hs.elected_backed c' U E hE
  obtain ⟨v, hv, hv'⟩ := hQ.exists_common hQ'
  obtain ⟨l, hl⟩ := hvotes v hv
  obtain ⟨l', hl', -⟩ := hvotes' v hv'
  obtain rfl := hs.voted_once v U c c' l l' hl hl'
  exact hfresh E hE

theorem keeps_advance (hs : Inv term members s) (hT : s.terms i ≤ T) :
    Keeps term members s i T (s.logs i) [] where
  le_term := hT
  conforms := hs.conforms i
  term_le e he := (hs.term_le i e he).trans hT
  canon_eq _ := Or.inl rfl
  voted _ _ _ _ h := absurd h List.not_mem_nil
  elected _ _ _ h := absurd h List.not_mem_nil
  accepted _ _ _ h := absurd h List.not_mem_nil
  acked _ _ _ h := Or.inl h
  kept _ _ _ h := Or.inl h

theorem keeps_vote (hs : Inv term members s) {c : ι} (hT : s.terms i ≤ T)
    (honce : ∀ c' l, .voted i T c' l ∈ s.facts → c' = c) :
    Keeps term members s i T (s.logs i) [.voted i T c (s.logs i)] where
  le_term := hT
  conforms := hs.conforms i
  term_le e he := (hs.term_le i e he).trans hT
  canon_eq _ := Or.inl rfl
  voted v U c' l h := by
    obtain ⟨rfl, rfl, rfl, rfl⟩ := LogFact.voted.inj (List.mem_singleton.mp h)
    refine ⟨rfl, rfl, rfl, fun c'' l' h' => ?_⟩
    rcases List.mem_append.mp h' with hnew | hold
    · exact (LogFact.voted.inj (List.mem_singleton.mp hnew)).2.2.1
    · exact honce c'' l' hold
  elected _ _ _ h := absurd (List.mem_singleton.mp h) (by simp)
  accepted _ _ _ h := absurd (List.mem_singleton.mp h) (by simp)
  acked j U X h := by
    rcases acked_set h with hold | hled | ⟨S, hS, -⟩ | ⟨⟨E, hE⟩, -⟩
    · exact Or.inl (Or.inl hold)
    · exact Or.inl (Or.inr hled)
    · exact absurd (List.mem_singleton.mp hS) (by simp)
    · exact absurd (List.mem_singleton.mp hE) (by simp)
  kept _ _ _ h := Or.inl h

theorem keeps_win (hs : Inv term members s) {Q : Finset ι} (hpos : 0 < s.terms i)
    (hQ : IsMajority members Q)
    (hvotes : ∀ v ∈ Q, ∃ l, .voted v (s.terms i) i l ∈ s.facts ∧ UpToDate term l (s.logs i))
    (hfresh : ∀ E, .elected i (s.terms i) E ∉ s.facts) :
    Keeps term members s i (s.terms i) (s.logs i) [.elected i (s.terms i) (s.logs i)] := by
  have hnot : ¬ Led s.facts (s.terms i) :=
    hs.not_led_of_win hQ (fun v hv => (hvotes v hv).imp fun l hl => hl.1) hfresh
  have hnil := hs.leaderLog_eq_nil_of_not_led hnot
  have hcanon : ∀ U, leaderLog term (s.set i (s.terms i) (s.logs i)
      [.elected i (s.terms i) (s.logs i)]).facts U =
        if s.terms i = U then s.logs i else leaderLog term s.facts U := fun U => leaderLog_elected
  have hgrow : ∀ U, leaderLog term s.facts U <+: leaderLog term (s.set i (s.terms i) (s.logs i)
      [.elected i (s.terms i) (s.logs i)]).facts U := leaderLog_prefix_elected hnil
  refine
    { le_term := le_refl _
      conforms := (hs.conforms i).mono hgrow
      term_le := hs.term_le i
      canon_eq := fun U => ?_
      voted := fun _ _ _ _ h => absurd (List.mem_singleton.mp h) (by simp)
      elected := fun c U E h => ?_
      accepted := fun _ _ _ h => absurd (List.mem_singleton.mp h) (by simp)
      acked := fun j U X h => ?_
      kept := fun _ _ _ h => Or.inl h }
  · rw [hcanon]
    split
    · next heq =>
      subst heq
      refine Or.inr ⟨rfl, ?_, rfl, i, s.logs i, List.mem_cons_self⟩
      rw [hnil]
      exact List.nil_prefix
    · exact Or.inl rfl
  · obtain ⟨rfl, rfl, rfl⟩ := LogFact.elected.inj (List.mem_singleton.mp h)
    refine ⟨hpos, ?_, hs.term_lt_of_not_led hnot, Q, hQ, fun v hv => ?_⟩
    · rw [hcanon, if_pos rfl]
    · obtain ⟨l, hl, hup⟩ := hvotes v hv
      refine ⟨l, hl, hup, fun T' X hlt' hack => ?_⟩
      refine (hs.voted_kept v _ c l hl T' X hlt' hack).imp_right ?_
      rintro ⟨c', V, E', hE', hlo, hhi, hX⟩
      -- what was lost was lost to a leader before this one, the first of its term
      have hne : V ≠ s.terms c := by
        rintro rfl
        exact hnot ⟨c', E', hE'⟩
      exact ⟨c', V, E', hE', hlo, by omega, hX⟩
  · rcases acked_set h with hold | ⟨⟨E, hE⟩, hX⟩ | ⟨S, hS, -⟩ | ⟨⟨E, hE⟩, hX⟩
    · exact Or.inl (Or.inl hold)
    · have hne : s.terms i ≠ U := by
        rintro rfl
        exact hnot ⟨j, E, hE⟩
      rw [hcanon, if_neg hne] at hX
      exact Or.inl (Or.inr ⟨⟨E, hE⟩, hX⟩)
    · exact absurd (List.mem_singleton.mp hS) (by simp)
    · obtain ⟨rfl, rfl, -⟩ := LogFact.elected.inj (List.mem_singleton.mp hE)
      refine Or.inr ⟨rfl, rfl, hX, ?_⟩
      rw [hcanon, if_pos rfl] at hX
      exact hX

theorem keeps_propose (hs : Inv term members s) {e : α} (hterm : term e = s.terms i)
    (hled : ∃ E, .elected i (s.terms i) E ∈ s.facts)
    (hlog : s.logs i = leaderLog term s.facts (s.terms i)) :
    Keeps term members s i (s.terms i) (s.logs i ++ [e]) [.proposed i e] := by
  have hcanon : ∀ U,
      leaderLog term (s.set i (s.terms i) (s.logs i ++ [e]) [.proposed i e]).facts U =
        if s.terms i = U then s.logs i ++ [e] else leaderLog term s.facts U := by
    intro U
    rw [← hterm]
    refine leaderLog_proposed.trans ?_
    split
    · next heq =>
      rw [hlog, ← hterm, heq]
      rfl
    · rfl
  have hgrow : ∀ U, leaderLog term s.facts U <+:
      leaderLog term (s.set i (s.terms i) (s.logs i ++ [e]) [.proposed i e]).facts U :=
    leaderLog_prefix_proposed
  refine
    { le_term := le_refl _
      conforms := ?_
      term_le := fun e' he' => ?_
      canon_eq := fun U => ?_
      voted := fun _ _ _ _ h => absurd (List.mem_singleton.mp h) (by simp)
      elected := fun _ _ _ h => absurd (List.mem_singleton.mp h) (by simp)
      accepted := fun _ _ _ h => absurd (List.mem_singleton.mp h) (by simp)
      acked := fun j U X h => ?_
      kept := fun _ _ _ h => Or.inl (h.trans (List.prefix_append _ _)) }
  · refine Conforms.concat ((hs.conforms i).mono hgrow) ?_
    rw [hcanon, hterm, if_pos rfl]
  · rcases List.mem_append.mp he' with hold | hnew
    · exact hs.term_le i e' hold
    · rw [List.mem_singleton.mp hnew, hterm]
  · rw [hcanon]
    split
    · next heq =>
      subst heq
      obtain ⟨E, hE⟩ := hled
      refine Or.inr ⟨rfl, ?_, rfl, i, E, mem_facts_set hE⟩
      rw [← hlog]
      exact List.prefix_append _ _
    · exact Or.inl rfl
  · rcases acked_set h with hold | ⟨⟨E, hE⟩, hX⟩ | ⟨S, hS, -⟩ | ⟨⟨E, hE⟩, -⟩
    · exact Or.inl (Or.inl hold)
    · by_cases hU : s.terms i = U
      · -- the leader acknowledges its own entry
        subst hU
        obtain ⟨E', hE'⟩ := hled
        refine Or.inr ⟨hs.leader_unique hE hE', rfl, hX, ?_⟩
        rw [hcanon, if_pos rfl] at hX
        exact hX
      · rw [hcanon, if_neg hU] at hX
        exact Or.inl (Or.inr ⟨⟨E, hE⟩, hX⟩)
    · exact absurd (List.mem_singleton.mp hS) (by simp)
    · exact absurd (List.mem_singleton.mp hE) (by simp)

/-- A fact that a node accepted a log adds acknowledgements of its beginnings alone. -/
theorem acked_set_accepted {j : ι} {U : ℤ} {S X : List α}
    (h : Acked term (s.set i T log [.accepted i T S]).facts j U X) :
    Acked term s.facts j U X ∨ j = i ∧ U = T ∧ X <+: S := by
  rcases acked_set h with hold | hled | ⟨S', hS', hX⟩ | ⟨⟨E, hE⟩, -⟩
  · exact Or.inl (Or.inl hold)
  · exact Or.inl (Or.inr hled)
  · obtain ⟨rfl, rfl, rfl⟩ := LogFact.accepted.inj (List.mem_singleton.mp hS')
    exact Or.inr ⟨rfl, rfl, hX⟩
  · exact absurd (List.mem_singleton.mp hE) (by simp)

theorem keeps_keep (hs : Inv term members s) {c : ι} {E S : List α} (hT : s.terms i ≤ T)
    (hled : .elected c T E ∈ s.facts) (hS : S <+: leaderLog term s.facts T)
    (hlog : S <+: s.logs i) :
    Keeps term members s i T (s.logs i) [.accepted i T S] where
  le_term := hT
  conforms := hs.conforms i
  term_le e he := (hs.term_le i e he).trans hT
  canon_eq _ := Or.inl rfl
  voted _ _ _ _ h := absurd (List.mem_singleton.mp h) (by simp)
  elected _ _ _ h := absurd (List.mem_singleton.mp h) (by simp)
  accepted j U S' h := by
    obtain ⟨-, rfl, -⟩ := LogFact.accepted.inj (List.mem_singleton.mp h)
    exact ⟨c, E, hled⟩
  acked j U X h := (acked_set_accepted h).imp_right fun ⟨hj, hU, hX⟩ =>
    ⟨hj, hU, hX.trans hS, hX.trans hlog⟩
  kept _ _ _ h := Or.inl h

theorem keeps_replace (hs : Inv term members s) {c : ι} {E S : List α} (hT : s.terms i ≤ T)
    (hled : .elected c T E ∈ s.facts) (hE : E <+: S) (hS : S <+: leaderLog term s.facts T)
    (hkeep : S <+: s.logs i → s.logs i = S) :
    Keeps term members s i T S [.accepted i T S] where
  le_term := hT
  conforms := (hs.canon_conforms T).initial hS
  term_le e he := hs.canon_le T e (hS.subset he)
  canon_eq _ := Or.inl rfl
  voted _ _ _ _ h := absurd (List.mem_singleton.mp h) (by simp)
  elected _ _ _ h := absurd (List.mem_singleton.mp h) (by simp)
  accepted j U S' h := by
    obtain ⟨-, rfl, -⟩ := LogFact.accepted.inj (List.mem_singleton.mp h)
    exact ⟨c, E, hled⟩
  acked j U X h := (acked_set_accepted h).imp_right fun ⟨hj, hU, hX⟩ =>
    ⟨hj, hU, hX.trans hS, hX⟩
  kept U X hack hX := by
    have hUT := (hs.acked_le i U X hack).trans hT
    exact (prefix_of_leader hUT hled hE hS hkeep (hs.acked_canon i U X hack) hX).imp_right
      fun hlost => hlost.set (le_refl _)

theorem Step.keeps {t : Replicas ι α} (hs : Inv term members s) (h : Step term members s t) :
    ∃ i T log F, t = s.set i T log F ∧ Keeps term members s i T log F := by
  cases h with
  | advance i T hT => exact ⟨i, T, _, _, rfl, keeps_advance hs hT⟩
  | vote v c T hT honce => exact ⟨v, T, _, _, rfl, keeps_vote hs hT honce⟩
  | win c Q hpos hQ hvotes hfresh => exact ⟨c, _, _, _, rfl, keeps_win hs hpos hQ hvotes hfresh⟩
  | propose c e hterm hled hlog => exact ⟨c, _, _, _, rfl, keeps_propose hs hterm hled hlog⟩
  | replace j c T E S hT hled hE hS hkeep =>
    exact ⟨j, T, _, _, rfl, keeps_replace hs hT hled hE hS hkeep⟩
  | keep j c T E S hT hled hE hS hlog => exact ⟨j, T, _, _, rfl, keeps_keep hs hT hled hS hlog⟩

/-- **The invariant is kept by every step.** -/
theorem Inv.step {t : Replicas ι α} (hs : Inv term members s) (h : Step term members s t) :
    Inv term members t := by
  obtain ⟨i, T, log, F, rfl, hk⟩ := h.keeps hs
  exact hs.set hk

/-- What is acknowledged stays acknowledged. -/
theorem Step.acked {t : Replicas ι α} (hs : Inv term members s) (h : Step term members s t) {j : ι}
    {U : ℤ} {X : List α} (hX : Acked term s.facts j U X) : Acked term t.facts j U X := by
  obtain ⟨i, T, log, F, rfl, hk⟩ := h.keeps hs
  rcases hX with ⟨S, hS, hX⟩ | ⟨⟨E, hE⟩, hX⟩
  · exact Or.inl ⟨S, mem_facts_set hS, hX⟩
  · exact Or.inr ⟨⟨E, mem_facts_set hE⟩, hX.trans (hk.grow U)⟩

theorem Step.canon_prefix {t : Replicas ι α} (hs : Inv term members s) (h : Step term members s t)
    (U : ℤ) : leaderLog term s.facts U <+: leaderLog term t.facts U := by
  obtain ⟨i, T, log, F, rfl, hk⟩ := h.keeps hs
  exact hk.grow U

end Steps

/-! ### What is chosen -/

/-- A majority acknowledged `X` in term `T`, of which its last entry is. -/
def Chosen (term : α → ℤ) (members : Finset ι) (F : List (LogFact ι α)) (T : ℤ) (X : List α) :
    Prop :=
  (∃ e, X.getLast? = some e ∧ term e = T) ∧
    ∃ Q, IsMajority members Q ∧ ∀ j ∈ Q, Acked term F j T X

/-- The beginning of something chosen in a term up to `T`. -/
def Certified (term : α → ℤ) (members : Finset ι) (F : List (LogFact ι α)) (T : ℤ)
    (P : List α) : Prop :=
  P = [] ∨ ∃ U X, U ≤ T ∧ Chosen term members F U X ∧ P <+: X

section Chosen

variable {term : α → ℤ} {members : Finset ι} {s : Replicas ι α}

/-- A log that is up to date with one that has an entry of a term led is not empty. -/
theorem exists_getLast?_of_upToDate {l E : List α} {e : α} (hlast : l.getLast? = some e)
    (hpos : 0 < term e) (hup : UpToDate term l E) : ∃ e', E.getLast? = some e' := by
  cases hE : E.getLast? with
  | some e' => exact ⟨e', rfl⟩
  | none =>
    rcases hup with hlt | ⟨-, hlen⟩
    · simp only [lastTerm, hlast, hE, Option.elim_some, Option.elim_none] at hlt
      omega
    · rw [List.getLast?_eq_none_iff] at hE
      subst hE
      have hnil : l = [] := List.eq_nil_of_length_eq_zero (Nat.le_zero.mp hlen)
      subst hnil
      simp at hlast

/-- Terms do not decrease along a log that conforms. -/
theorem Inv.term_le_last (hs : Inv term members s) {l : List α}
    (hl : Conforms term (leaderLog term s.facts) l) {e e' : α} (he : e ∈ l)
    (hlast : l.getLast? = some e') :
    term e ≤ term e' :=
  hs.canon_le _ e ((hl.prefix_canon hlast).subset he)

/-- Whoever has an entry of a term has the log its leader was elected with. -/
theorem Inv.elected_prefix (hs : Inv term members s) {l : List α}
    (hl : Conforms term (leaderLog term s.facts) l) {e : α} (hlast : l.getLast? = some e)
    {c : ι} {E : List α}
    (hE : .elected c (term e) E ∈ s.facts) : E <+: l := by
  rcases List.prefix_or_prefix_of_prefix (hs.elected_canon c _ E hE) (hl.prefix_canon hlast) with
    hpre | hpre
  · exact hpre
  · have hmem : e ∈ E := hpre.subset (List.mem_of_getLast? hlast)
    exact absurd (hs.elected_lt c _ E hE e hmem) (lt_irrefl _)

/-- A log that is up to date with one that has `X`, an entry of term `T` at its end, has `X`
too, if the leaders between `T` and `U` were elected with it. -/
theorem Inv.prefix_of_upToDate (hs : Inv term members s) {l E X : List α} {x : α} {U : ℤ}
    (hl : Conforms term (leaderLog term s.facts) l) (hE : Conforms term (leaderLog term s.facts) E)
    (hXlast : X.getLast? = some x) (hX : X <+: l) (hup : UpToDate term l E)
    (hEU : ∀ e ∈ E, term e < U)
    (hbetween : ∀ c V F, .elected c V F ∈ s.facts → term x < V → V < U → X <+: F) : X <+: E := by
  have hxl : x ∈ l := hX.subset (List.mem_of_getLast? hXlast)
  obtain ⟨e, hlast⟩ : ∃ e, l.getLast? = some e := by
    cases hlast : l.getLast? with
    | some e => exact ⟨e, rfl⟩
    | none =>
      rw [List.getLast?_eq_none_iff] at hlast
      subst hlast
      exact absurd hxl List.not_mem_nil
  have hxe : term x ≤ term e := hs.term_le_last hl hxl hlast
  obtain ⟨c, F, hF⟩ := hs.canon_led (term x) (List.ne_nil_of_mem (hl.mem_canon hxl))
  have hpos : 0 < term e := lt_of_lt_of_le (hs.elected_pos c _ F hF) hxe
  obtain ⟨e', hlast'⟩ := exists_getLast?_of_upToDate hlast hpos hup
  have hupe : term e < term e' ∨ term e' = term e ∧ l.length ≤ E.length := by
    simpa only [UpToDate, lastTerm, hlast, hlast', Option.elim_some] using hup
  rcases hupe with hlt | ⟨hterm, hlen⟩
  · -- the last entry is of a later leader, which was elected with it
    have hmem : e' ∈ E := List.mem_of_getLast? hlast'
    obtain ⟨c', F', hF'⟩ := hs.canon_led (term e') (List.ne_nil_of_mem (hE.mem_canon hmem))
    exact (hbetween c' _ F' hF' (by omega) (hEU e' hmem)).trans (hs.elected_prefix hE hlast' hF')
  · -- both logs are the beginning of one leader's
    have hpre := hl.prefix_canon hlast
    have hpre' := hE.prefix_canon hlast'
    rw [hterm] at hpre'
    exact hX.trans (List.prefix_of_prefix_length_le hpre hpre' hlen)

theorem Certified.mono_term {F : List (LogFact ι α)} {T U : ℤ} {P : List α}
    (h : Certified term members F T P) (hTU : T ≤ U) : Certified term members F U P :=
  h.imp_right fun ⟨V, X, hV, hX, hP⟩ => ⟨V, X, hV.trans hTU, hX, hP⟩

variable [DecidableEq ι]

/-- **Later leaders have what was chosen.** -/
theorem Inv.leader_complete (hs : Inv term members s) {T : ℤ} {X : List α}
    (hX : Chosen term members s.facts T X) {c : ι} {U : ℤ} {E : List α}
    (hE : .elected c U E ∈ s.facts) (hTU : T < U) : X <+: E := by
  obtain ⟨⟨x, hXlast, rfl⟩, Q, hQ, hacks⟩ := hX
  -- induction on the distance of the terms: leaders in between have it
  induction hn : (U - term x).toNat using Nat.strong_induction_on generalizing c U E with
  | _ n ih =>
    have hbetween : ∀ c V F, .elected c V F ∈ s.facts → term x < V → V < U → X <+: F := by
      intro c' V F hF hlo hhi
      exact ih _ (by omega) hF hlo rfl
    obtain ⟨Q', hQ', hvotes⟩ := hs.elected_backed c U E hE
    obtain ⟨v, hv, hv'⟩ := hQ.exists_common hQ'
    obtain ⟨l, hl, hup, hkept⟩ := hvotes v hv'
    -- a voter of the majority acknowledged it before it voted
    have hXl : X <+: l := by
      rcases hkept _ X hTU (hacks v hv) with hXl | ⟨c', V, F, hF, hlo, hhi, hnot⟩
      · exact hXl
      · exact absurd (hbetween c' V F hF hlo (by omega)) hnot
    have hconf : Conforms term (leaderLog term s.facts) E :=
      (hs.canon_conforms U).initial (hs.elected_canon c U E hE)
    exact hs.prefix_of_upToDate (hs.voted_conforms v U c l hl) hconf hXlast hXl hup
      (hs.elected_lt c U E hE) hbetween

theorem Chosen.canon (hs : Inv term members s) {T : ℤ} {X : List α}
    (hX : Chosen term members s.facts T X) : X <+: leaderLog term s.facts T := by
  obtain ⟨-, Q, hQ, hacks⟩ := hX
  obtain ⟨j, hj, -⟩ := hQ.exists_common hQ
  exact hs.acked_canon j T X (hacks j hj)

theorem Chosen.led (hs : Inv term members s) {T : ℤ} {X : List α}
    (hX : Chosen term members s.facts T X) : Led s.facts T := by
  obtain ⟨-, Q, hQ, hacks⟩ := hX
  obtain ⟨j, hj, -⟩ := hQ.exists_common hQ
  rcases hacks j hj with ⟨S, hS, -⟩ | ⟨⟨E, hE⟩, -⟩
  · exact hs.accepted_led j T S hS
  · exact ⟨j, E, hE⟩

/-- The log of a leader has what was chosen in its term or before. -/
theorem Inv.chosen_prefix (hs : Inv term members s) {T U : ℤ} {X : List α}
    (hX : Chosen term members s.facts T X) (hTU : T ≤ U) {c : ι} {E : List α}
    (hE : .elected c U E ∈ s.facts) : X <+: leaderLog term s.facts U := by
  rcases lt_or_eq_of_le hTU with hlt | rfl
  · exact (hs.leader_complete hX hE hlt).trans (hs.elected_canon c U E hE)
  · exact hX.canon hs

/-- **What is chosen agrees.** -/
theorem Inv.chosen_comparable (hs : Inv term members s) {T T' : ℤ} {X X' : List α}
    (hX : Chosen term members s.facts T X) (hX' : Chosen term members s.facts T' X') :
    X <+: X' ∨ X' <+: X := by
  rcases le_total T T' with hle | hle
  · obtain ⟨c, E, hE⟩ := hX'.led hs
    exact List.prefix_or_prefix_of_prefix (hs.chosen_prefix hX hle hE) (hX'.canon hs)
  · obtain ⟨c, E, hE⟩ := hX.led hs
    exact List.prefix_or_prefix_of_prefix (hX.canon hs) (hs.chosen_prefix hX' hle hE)

/-- **A log accepted from a leader has what its receiver knows to be settled.** -/
theorem Inv.certified_prefix (hs : Inv term members s) {j c : ι} {T : ℤ} {E S P : List α}
    (hP : Certified term members s.facts (s.terms j) P) (hlog : P <+: s.logs j) (hT : s.terms j ≤ T)
    (hled : .elected c T E ∈ s.facts) (hE : E <+: S) (hS : S <+: leaderLog term s.facts T)
    (hkeep : S <+: s.logs j → s.logs j = S) : P <+: S := by
  rcases hP with rfl | ⟨U, X, hU, hX, hPX⟩
  · exact List.nil_prefix
  · rcases lt_or_eq_of_le (hU.trans hT) with hlt | rfl
    · exact hPX.trans ((hs.leader_complete hX hled hlt).trans hE)
    · rcases List.prefix_or_prefix_of_prefix (hPX.trans (hX.canon hs)) hS with hPS | hSP
      · exact hPS
      · rw [← hkeep (hSP.trans hlog)]
        exact hlog

/-- What is chosen stays chosen. -/
theorem Step.chosen {t : Replicas ι α} (hs : Inv term members s) (h : Step term members s t) {T : ℤ}
    {X : List α} (hX : Chosen term members s.facts T X) : Chosen term members t.facts T X := by
  obtain ⟨hlast, Q, hQ, hacks⟩ := hX
  exact ⟨hlast, Q, hQ, fun j hj => h.acked hs (hacks j hj)⟩

theorem Step.certified {t : Replicas ι α} (hs : Inv term members s) (h : Step term members s t)
    {T : ℤ} {P : List α} (hP : Certified term members s.facts T P) :
    Certified term members t.facts T P :=
  hP.imp_right fun ⟨U, X, hU, hX, hPX⟩ => ⟨U, X, hU, h.chosen hs hX, hPX⟩

end Chosen

end Replicas
