import RpcFramework.Client.Discovery
import RpcFramework.Server.RpcCall

/-!
# Calls of a client

A call chooses an endpoint and tries it up to `retry_count` times.  Success and failure of an
attempt travel in one string, where the empty one is a failure: so a response without an error
whose result has no bytes is taken for none, and the remote method is run again.

What the network does is given with each attempt.  The response times are left out.

## Main definitions

* `RpcClient.Attempt` — what happens in an attempt; `RpcClient.callEndpoint`.
* `RpcClient.callWithRetry`, `RpcClient.selectEndpoint`, `RpcClient.call`.
* `RpcClient.StopsAtSuccess` — the first response without an error ends the call, as a success.
* `RpcClient.FirstHasData` — it has a result that is not empty.

## Main results

* `RpcClient.retryLoop_spec` — which attempts are made, and what comes of them.
* `RpcClient.call_stopsAtSuccess_iff` — **the calls that stop at the first success.**
-/

open Rpc

/-- The counters of a client, as often as they were counted up: `RpcClient.Stats` has them as the
numbers of 64 bits they are. -/
structure RpcClient where
  totalCalls : ℕ := 0
  successfulCalls : ℕ := 0
  failedCalls : ℕ := 0
  roundRobinCounters : Bytes → ℕ := fun _ => 0

namespace RpcClient

/-! ### One attempt -/

/-- What `acquire` comes to: a connection, or an exception with a text.  A null pointer, for
which `callEndpoint` has a text of its own, it never returns. -/
inductive Acquired where
  | connection
  | threw (what : Bytes)
  deriving DecidableEq, Repr

/-- What happens to an attempt: whether there is a connection, whether the request can be sent
on it, and what is received. -/
structure Attempt where
  acquired : Acquired := .connection
  sent : Bool := true
  received : Bytes := []
  deriving DecidableEq, Repr

/-- The part of `callEndpoint` that is tried: the result, or the text of the exception. -/
def Attempt.exchange (a : Attempt) : Except Bytes Bytes :=
  if a.sent then readResponse a.received else .error (utf8 "Failed to send RPC request")

/-- `callEndpoint`: the result or the text of the exception, and how many times the connection
was released. -/
def callEndpoint (a : Attempt) : Except Bytes Bytes × ℕ :=
  match a.acquired with
  | .threw what => (.error what, 0)
  | .connection =>
      match a.exchange with
      | .ok data => (.ok data, 1)
      -- `catch (...)` releases and throws again
      | .error what => (.error what, 1)

/-- What the caller of an attempt sees of it. -/
def Attempt.outcome (a : Attempt) : Except Bytes Bytes := (callEndpoint a).1

/-! ### Retries -/

/-- The loop of `callWithRetry` with so many attempts remaining: the result, and the outcomes
of the attempts made. -/
def retryLoop (attempts : ℕ → Attempt) : ℕ → ℕ → Bytes × List (Except Bytes Bytes)
  | 0, _ => ([], [])
  | remaining + 1, attempt =>
      let outcome := (attempts attempt).outcome
      let rest := retryLoop attempts remaining (attempt + 1)
      match outcome with
      | .ok result => if result ≠ [] then (result, [outcome]) else (rest.1, outcome :: rest.2)
      | .error _ => (rest.1, outcome :: rest.2)

def callWithRetry (retryCount : ℤ) (attempts : ℕ → Attempt) :
    Bytes × List (Except Bytes Bytes) :=
  retryLoop attempts retryCount.toNat 0

/-- The key of the counter for a list of endpoints: the address of the first. -/
def roundRobinKey (endpoint : ServiceEndpoint) : Bytes :=
  endpoint.host ++ utf8 ":" ++ decimal endpoint.port

/-- `selectEndpoint`; without endpoints it throws. -/
def selectEndpoint (client : RpcClient) :
    List ServiceEndpoint → Option (ServiceEndpoint × RpcClient)
  | [] => none
  | [endpoint] => some (endpoint, client)
  | endpoint :: endpoints =>
      let key := roundRobinKey endpoint
      let counter := client.roundRobinCounters key
      ((endpoint :: endpoints)[counter % (endpoints.length + 1)]?).map fun selected =>
        (selected,
          { client with
            roundRobinCounters :=
              Function.update client.roundRobinCounters key ((counter + 1) % 2 ^ 64) })

/-- A call: what it returned, the outcomes of its attempts, and the client afterwards. -/
structure Called where
  returned : Bytes
  outcomes : List (Except Bytes Bytes)
  client : RpcClient

/-- `call`, with the endpoints that `discoverService` returned and what will happen to the
attempts at each. -/
def call (client : RpcClient) (retryCount : ℤ) (endpoints : List ServiceEndpoint)
    (attempts : ServiceEndpoint → ℕ → Attempt) : Called :=
  let client := { client with totalCalls := client.totalCalls + 1 }
  match client.selectEndpoint endpoints with
  -- without endpoints, or by the exception
  | none => ⟨[], [], { client with failedCalls := client.failedCalls + 1 }⟩
  | some (endpoint, client) =>
      let (result, outcomes) := callWithRetry retryCount (attempts endpoint)
      if result ≠ [] then
        ⟨result, outcomes, { client with successfulCalls := client.successfulCalls + 1 }⟩
      else ⟨result, outcomes, { client with failedCalls := client.failedCalls + 1 }⟩

/-! ### The first success -/

/-- The endpoint a call will try. -/
def selected (client : RpcClient) (endpoints : List ServiceEndpoint) : Option ServiceEndpoint :=
  (client.selectEndpoint endpoints).map Prod.fst

/-- The first attempt that gets a response without an error is the last one made; the call
returns the response's data, and it is this that counts as a success.  A call counts as failed
only if no attempt got such a response. -/
def StopsAtSuccess (client : RpcClient) (called : Called) : Prop :=
  (∀ (k : ℕ) (data : Bytes), called.outcomes[k]? = some (.ok data) →
      (∀ j < k, ∀ data', called.outcomes[j]? ≠ some (.ok data')) →
        called.outcomes.length = k + 1 ∧ called.returned = data ∧
          called.client.successfulCalls = client.successfulCalls + 1 ∧
          called.client.failedCalls = client.failedCalls) ∧
    (called.client.failedCalls ≠ client.failedCalls →
      ∀ data, Except.ok data ∉ called.outcomes)

/-- If one of the first `retry_count` attempts gets a response without an error, the first
that does gets one that has data. -/
def FirstHasData (retryCount : ℤ) (attempts : ℕ → Attempt) : Prop :=
  ∀ k : ℕ, (k : ℤ) < retryCount → (∀ j < k, ∀ data, (attempts j).outcome ≠ .ok data) →
    (attempts k).outcome ≠ .ok []

section Retry

variable {attempts : ℕ → Attempt} {retryCount : ℤ} {N : ℕ}

/-- An attempt that returns nothing leaves the result to the rest. -/
theorem retryLoop_of_nothing {attempt : ℕ} (remaining : ℕ)
    (hnothing : ∀ data, (attempts attempt).outcome = .ok data → data = []) :
    retryLoop attempts (remaining + 1) attempt =
      ((retryLoop attempts remaining (attempt + 1)).1,
        (attempts attempt).outcome :: (retryLoop attempts remaining (attempt + 1)).2) := by
  rw [retryLoop]
  cases houtcome : (attempts attempt).outcome with
  | ok result => simp only [hnothing result houtcome, ne_eq, not_true_eq_false, if_false]
  | error what => rfl

theorem retryLoop_of_data {attempt : ℕ} {data : Bytes} (remaining : ℕ)
    (hok : (attempts attempt).outcome = .ok data) (hne : data ≠ []) :
    retryLoop attempts (remaining + 1) attempt = (data, [(attempts attempt).outcome]) := by
  rw [retryLoop]
  simp only [hok, hne, ne_eq, not_false_eq_true, if_true]

/-- The outcomes from an attempt on are its own and those from the next one on. -/
theorem outcome_cons_outcomes (attempts : ℕ → Attempt) (attempt n : ℕ) :
    (attempts attempt).outcome ::
        ((List.range n).map fun j => (attempts (attempt + 1 + j)).outcome) =
      (List.range (n + 1)).map fun j => (attempts (attempt + j)).outcome := by
  rw [List.range_succ_eq_map, List.map_cons, List.map_map]
  simp only [Function.comp_def, Nat.add_zero, Nat.succ_eq_add_one, Nat.add_right_comm,
    Nat.add_assoc]

/-- **The loop** makes its attempts up to the first that returns something, or makes all of
them. -/
theorem retryLoop_spec (attempts : ℕ → Attempt) (remaining attempt : ℕ) :
    (∃ k < remaining,
        (attempts (attempt + k)).outcome = .ok (retryLoop attempts remaining attempt).1 ∧
          (retryLoop attempts remaining attempt).1 ≠ [] ∧
          (∀ j < k, ∀ data, (attempts (attempt + j)).outcome = .ok data → data = []) ∧
          (retryLoop attempts remaining attempt).2 =
            (List.range (k + 1)).map fun j => (attempts (attempt + j)).outcome) ∨
      (retryLoop attempts remaining attempt).1 = [] ∧
        (∀ j < remaining, ∀ data, (attempts (attempt + j)).outcome = .ok data → data = []) ∧
        (retryLoop attempts remaining attempt).2 =
          (List.range remaining).map fun j => (attempts (attempt + j)).outcome := by
  induction remaining generalizing attempt with
  | zero => exact Or.inr ⟨rfl, fun j hj => absurd hj (Nat.not_lt_zero j), rfl⟩
  | succ remaining ih =>
    by_cases hnothing : ∀ data, (attempts attempt).outcome = .ok data → data = []
    · -- the rest decides
      have hshift : ∀ j, attempt + 1 + j = attempt + (j + 1) := fun j => by omega
      have hbegin : ∀ n,
          (∀ j < n, ∀ data, (attempts (attempt + 1 + j)).outcome = .ok data → data = []) →
            ∀ j < n + 1, ∀ data, (attempts (attempt + j)).outcome = .ok data → data = [] := by
        intro n hrest
        refine Nat.forall_lt_succ_left.mpr ⟨hnothing, fun j hj => ?_⟩
        rw [← hshift]
        exact hrest j hj
      rw [retryLoop_of_nothing remaining hnothing]
      rcases ih (attempt + 1) with ⟨k, hk, hok, hne, hbefore, hall⟩ | ⟨hnil, hbefore, hall⟩
      · refine Or.inl ⟨k + 1, Nat.succ_lt_succ hk, ?_, hne, hbegin k hbefore, ?_⟩
        · rw [← hshift]
          exact hok
        · rw [hall]
          exact outcome_cons_outcomes attempts attempt (k + 1)
      · refine Or.inr ⟨hnil, hbegin remaining hbefore, ?_⟩
        rw [hall]
        exact outcome_cons_outcomes attempts attempt remaining
    · push Not at hnothing
      obtain ⟨data, hok, hne⟩ := hnothing
      rw [retryLoop_of_data remaining hok hne]
      exact Or.inl ⟨0, Nat.succ_pos _, hok, hne, fun j hj => absurd hj (Nat.not_lt_zero j), rfl⟩

/-- Where the first response without an error has data, and none has, there is none. -/
theorem FirstHasData.no_success (h : FirstHasData retryCount attempts) (hN : (N : ℤ) ≤ retryCount)
    (hempty : ∀ j < N, ∀ data, (attempts j).outcome = .ok data → data = []) :
    ∀ j < N, ∀ data, (attempts j).outcome ≠ .ok data := by
  intro j
  induction j using Nat.strong_induction_on with
  | _ j ih =>
    intro hj data hok
    refine h j (by omega) (fun i hi => ih i hi (hi.trans hj)) ?_
    rw [hok, hempty j hj data hok]

/-- The outcomes of the attempts made, one by one. -/
theorem getElem?_outcomes (n k : ℕ) :
    ((List.range n).map fun j => (attempts j).outcome)[k]? =
      if k < n then some (attempts k).outcome else none := by
  rw [List.getElem?_map]
  split
  · next h => rw [List.getElem?_range h, Option.map_some]
  · next h => rw [List.getElem?_eq_none (by simpa using h), Option.map_none]

/-- **What the retries come to**: a result that is not empty at the last of them, or none. -/
theorem callWithRetry_spec (retryCount : ℤ) (attempts : ℕ → Attempt) :
    (∃ k : ℕ, (k : ℤ) < retryCount ∧
        (attempts k).outcome = .ok (callWithRetry retryCount attempts).1 ∧
        (callWithRetry retryCount attempts).1 ≠ [] ∧
        (∀ j < k, ∀ data, (attempts j).outcome = .ok data → data = []) ∧
        (callWithRetry retryCount attempts).2 =
          (List.range (k + 1)).map fun j => (attempts j).outcome) ∨
      (callWithRetry retryCount attempts).1 = [] ∧
        (∀ j < retryCount.toNat, ∀ data, (attempts j).outcome = .ok data → data = []) ∧
        (callWithRetry retryCount attempts).2 =
          (List.range retryCount.toNat).map fun j => (attempts j).outcome := by
  have hspec := retryLoop_spec attempts retryCount.toNat 0
  simp only [Nat.zero_add] at hspec
  rcases hspec with ⟨k, hk, hrest⟩ | hrest
  · exact Or.inl ⟨k, by omega, hrest⟩
  · exact Or.inr hrest

/-- The retries stop at the first response without an error just if that has data. -/
theorem callWithRetry_stops_iff (retryCount : ℤ) (attempts : ℕ → Attempt) :
    (∀ (k : ℕ) (data : Bytes), (callWithRetry retryCount attempts).2[k]? = some (.ok data) →
        (∀ j < k, ∀ data', (callWithRetry retryCount attempts).2[j]? ≠ some (.ok data')) →
          (callWithRetry retryCount attempts).2.length = k + 1 ∧
            (callWithRetry retryCount attempts).1 = data ∧
            (callWithRetry retryCount attempts).1 ≠ []) ∧
      ((callWithRetry retryCount attempts).1 = [] →
        ∀ data, Except.ok data ∉ (callWithRetry retryCount attempts).2) ↔
      FirstHasData retryCount attempts := by
  rcases callWithRetry_spec retryCount attempts with
    ⟨k, hk, hok, hne, hempty, hall⟩ | ⟨hnil, hempty, hall⟩
  · rw [hall, and_iff_left fun hnil => absurd hnil hne]
    constructor
    · intro hstops i hi hfirst hdata
      rcases lt_trichotomy i k with hlt | rfl | hgt
      · -- an earlier one would have been the last
        obtain ⟨hlength, -⟩ := hstops i [] (by rw [getElem?_outcomes, if_pos (by omega), hdata])
          (fun j hj data => by
            rw [getElem?_outcomes, if_pos (by omega)]
            exact fun heq => hfirst j hj data (Option.some.inj heq))
        rw [List.length_map, List.length_range] at hlength
        omega
      · exact hne (Except.ok.inj (hok.symm.trans hdata))
      · exact hfirst k hgt _ hok
    · intro hfirst i data hi hbefore
      have hnone := hfirst.no_success hk.le hempty
      rw [getElem?_outcomes] at hi
      split at hi
      · next hlt =>
        have hi := Option.some.inj hi
        obtain rfl : i = k := by
          by_contra hother
          exact hnone i (by omega) data hi
        refine ⟨by rw [List.length_map, List.length_range], ?_, hne⟩
        exact Except.ok.inj (hok.symm.trans hi)
      · cases hi
  · rw [hall]
    constructor
    · rintro ⟨-, hfailed⟩ i hi hfirst hdata
      refine hfailed hnil [] (List.mem_map.mpr ⟨i, List.mem_range.mpr (by omega), hdata⟩)
    · intro hfirst
      have hnone : ∀ j < retryCount.toNat, ∀ data, (attempts j).outcome ≠ .ok data := by
        intro j hj
        refine hfirst.no_success (N := retryCount.toNat) (by omega) hempty j hj
      refine ⟨fun i data hi _ => ?_, fun _ data hmem => ?_⟩
      · rw [getElem?_outcomes] at hi
        split at hi
        · next hlt => exact absurd (Option.some.inj hi) (hnone i hlt data)
        · cases hi
      · obtain ⟨i, hi, hok⟩ := List.mem_map.mp hmem
        exact hnone i (List.mem_range.mp hi) data hok

end Retry

/-- Choosing an endpoint moves no counter of calls. -/
theorem selectEndpoint_counters {client client' : RpcClient} {endpoints : List ServiceEndpoint}
    {endpoint : ServiceEndpoint} (h : client.selectEndpoint endpoints = some (endpoint, client')) :
    client'.successfulCalls = client.successfulCalls ∧
      client'.failedCalls = client.failedCalls := by
  match endpoints with
  | [] => cases h
  | [_] =>
    obtain ⟨-, rfl⟩ := Prod.mk.inj (Option.some.inj h)
    exact ⟨rfl, rfl⟩
  | _ :: _ :: _ =>
    obtain ⟨_, -, heq⟩ := Option.map_eq_some_iff.mp h
    obtain ⟨-, rfl⟩ := Prod.mk.inj heq
    exact ⟨rfl, rfl⟩

/-- The choice does not look at the counters of calls. -/
theorem selected_totalCalls (client : RpcClient) (endpoints : List ServiceEndpoint) (n : ℕ) :
    ({ client with totalCalls := n }.selectEndpoint endpoints).map Prod.fst =
      client.selected endpoints := by
  match endpoints with
  | [] => rfl
  | [_] => rfl
  | _ :: _ :: _ =>
    rw [selected, selectEndpoint, selectEndpoint, Option.map_map, Option.map_map]
    · rfl
    · simp
    · simp

/-- **A call stops at the first success** exactly if no attempt at the endpoint it tries gets,
as the first response without an error, one with an empty result. -/
theorem call_stopsAtSuccess_iff (client : RpcClient) (retryCount : ℤ)
    (endpoints : List ServiceEndpoint) (attempts : ServiceEndpoint → ℕ → Attempt) :
    StopsAtSuccess client (client.call retryCount endpoints attempts) ↔
      ∀ endpoint ∈ client.selected endpoints, FirstHasData retryCount (attempts endpoint) := by
  rw [← selected_totalCalls client endpoints (client.totalCalls + 1), call]
  cases hselect :
      ({ client with totalCalls := client.totalCalls + 1 }).selectEndpoint endpoints with
  | none =>
    refine iff_of_true ⟨fun k data hk => ?_, fun _ data hmem => ?_⟩ fun endpoint hmem => ?_
    · cases hk
    · exact absurd hmem List.not_mem_nil
    · cases hmem
  | some choice =>
    obtain ⟨endpoint, client'⟩ := choice
    obtain ⟨hsuccessful, hfailed⟩ := selectEndpoint_counters hselect
    have hforall : (∀ e ∈ (some (endpoint, client')).map Prod.fst,
        FirstHasData retryCount (attempts e)) ↔ FirstHasData retryCount (attempts endpoint) := by
      simp
    rw [hforall, ← callWithRetry_stops_iff]
    by_cases hnil : (callWithRetry retryCount (attempts endpoint)).1 = []
    · simp only [hnil, ne_eq, not_true_eq_false, if_false, StopsAtSuccess, hfailed]
      simp
    · simp only [hnil, ne_eq, not_false_eq_true, if_true, StopsAtSuccess, hsuccessful, hfailed]
      simp

/-- A response without an error, to a method whose result takes no bytes. -/
def sampleEmptyResult : Attempt where
  received := Serializer.serialize RpcResponse.codec { requestId := utf8 "1000000" }

/-- The method is run three times, and the call has failed. -/
theorem sampleEmptyResult_retried : ¬ ∀ (client : RpcClient) (retryCount : ℤ)
    (endpoints : List ServiceEndpoint) (attempts : ServiceEndpoint → ℕ → Attempt),
    StopsAtSuccess client (client.call retryCount endpoints attempts) := by
  intro h
  have houtcome : sampleEmptyResult.outcome = .ok [] := by decide +kernel
  obtain ⟨hlength, -⟩ := (h {} 3 [⟨utf8 "localhost", 8080⟩] fun _ _ => sampleEmptyResult).1 0 []
    (by simp [call, selectEndpoint, callWithRetry, retryLoop, houtcome])
    (fun j hj => absurd hj (Nat.not_lt_zero j))
  simp [call, selectEndpoint, callWithRetry, retryLoop, houtcome] at hlength

end RpcClient
