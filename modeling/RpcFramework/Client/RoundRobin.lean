import RpcFramework.Client.RpcClient
import RpcFramework.Lib.Rotation

/-!
# The rotation over endpoints

`selectEndpoint` takes the endpoints of a list in turn, by a counter that it keeps under the
address of the first of them.  Services whose lists begin with the same endpoint have one
counter for all, and calls for the one move it for the others.

## Main definitions

* `RpcClient.selections` — the endpoints chosen by a sequence of calls for services.
* `RpcClient.Fair` — every so many calls for a service as it has endpoints take each once.
* `RpcClient.turns`, `RpcClient.Spread` — the numbers of a service's calls among those that
  move its counter, and that no two of them so close are a multiple of it apart.

## Main results

* `RpcClient.indices_selections` — what a service is given by its turns.
* `RpcClient.selections_fair_iff` — **the sequences that are fair to all services**; all are, just
  if no two lists begin alike.
-/

open Rpc

namespace RpcClient

/-- `key`: the address of the first endpoint. -/
def counterKey (endpoints : List ServiceEndpoint) : Bytes :=
  endpoints.head?.elim [] roundRobinKey

/-- `index`: where the counter is in the list. -/
def selectIndex (client : RpcClient) (endpoints : List ServiceEndpoint) : ℕ :=
  client.roundRobinCounters (counterKey endpoints) % endpoints.length

/-- `fetch_add`. -/
def countUp (client : RpcClient) (key : Bytes) : RpcClient :=
  { client with
    roundRobinCounters :=
      Function.update client.roundRobinCounters key
        ((client.roundRobinCounters key + 1) % 2 ^ 64) }

@[simp] theorem countUp_roundRobinCounters (client : RpcClient) (key : Bytes) :
    (client.countUp key).roundRobinCounters = Function.update client.roundRobinCounters key
      ((client.roundRobinCounters key + 1) % 2 ^ 64) := rfl

/-- From two endpoints on there is a choice, and the counter goes on. -/
theorem selectEndpoint_eq (client : RpcClient) : ∀ {endpoints : List ServiceEndpoint},
    2 ≤ endpoints.length → ∃ endpoint,
      endpoints[client.selectIndex endpoints]? = some endpoint ∧
        client.selectEndpoint endpoints =
          some (endpoint, client.countUp (counterKey endpoints)) := by
  intro endpoints htwo
  have hlt : client.selectIndex endpoints < endpoints.length := Nat.mod_lt _ (by omega)
  refine ⟨endpoints[client.selectIndex endpoints], List.getElem?_eq_getElem hlt, ?_⟩
  match endpoints with
  | [] | [_] => simp at htwo
  | first :: second :: rest =>
    have hget : (first :: second :: rest)[client.roundRobinCounters (roundRobinKey first) %
        ((second :: rest).length + 1)]? = some _ := List.getElem?_eq_getElem hlt
    rw [selectEndpoint, hget]
    · rfl
    · simp

/-- What a call for a service chose: the index and the endpoint. -/
structure Selection (S : Type*) where
  service : S
  index : ℕ
  endpoint : ServiceEndpoint

section Selections

variable {S : Type*} (lists : S → List ServiceEndpoint)

/-- Calls of `selectEndpoint`, each for a service. -/
def selections (client : RpcClient) : List S → List (Selection S)
  | [] => []
  | service :: services =>
      match client.selectEndpoint (lists service) with
      | none => []
      | some (endpoint, client') =>
          ⟨service, client.selectIndex (lists service), endpoint⟩ :: client'.selections services

/-- Each endpoint is chosen once. -/
structure EachOnce (endpoints : List ServiceEndpoint) (selections : List (Selection S)) :
    Prop where
  index : (selections.map Selection.index).Perm (List.range endpoints.length)
  endpoint : (selections.map Selection.endpoint).Perm endpoints

/-- The calls that move the counter of a service. -/
def sharing (services : List S) (service : S) : List S :=
  services.filter fun other => counterKey (lists other) = counterKey (lists service)

/-- No counter is counted past the largest `size_t`. -/
def NoWrap (client : RpcClient) (services : List S) : Prop :=
  ∀ service, client.roundRobinCounters (counterKey (lists service)) +
    (sharing lists services service).length < 2 ^ 64

variable {lists} {client : RpcClient} {services : List S}

theorem selections_cons (client : RpcClient) (service : S) (services : List S) :
    2 ≤ (lists service).length → ∃ endpoint,
      (lists service)[client.selectIndex (lists service)]? = some endpoint ∧
        client.selections lists (service :: services) =
          ⟨service, client.selectIndex (lists service), endpoint⟩ ::
            (client.countUp (counterKey (lists service))).selections lists services := by
  intro htwo
  obtain ⟨endpoint, hget, hselect⟩ := selectEndpoint_eq client htwo
  refine ⟨endpoint, hget, ?_⟩
  rw [selections, hselect]

/-- Each choice is where the list has it. -/
theorem getElem?_of_mem_selections (htwo : ∀ service, 2 ≤ (lists service).length) :
    ∀ selection ∈ client.selections lists services,
      (lists selection.service)[selection.index]? = some selection.endpoint := by
  induction services generalizing client with
  | nil =>
    intro selection hmem
    exact absurd hmem List.not_mem_nil
  | cons service services ih =>
    intro selection hmem
    obtain ⟨endpoint, hget, hselections⟩ := selections_cons client service services (htwo service)
    rw [hselections, List.mem_cons] at hmem
    rcases hmem with rfl | hmem
    · exact hget
    · exact ih selection hmem

theorem sharing_cons (other : S) (services : List S) (service : S) :
    sharing lists (other :: services) service =
      if counterKey (lists other) = counterKey (lists service) then
        other :: sharing lists services service
      else sharing lists services service := by
  simp only [sharing, List.filter_cons, decide_eq_true_eq]

/-- A counter that is not counted past the end is, after a call, one further, or the same, as the
call shares it or not. -/
theorem NoWrap.counter_countUp {other : S}
    (hwrap : NoWrap lists client (other :: services)) : ∀ service,
    (client.countUp (counterKey (lists other))).roundRobinCounters (counterKey (lists service)) =
      if counterKey (lists other) = counterKey (lists service) then
        client.roundRobinCounters (counterKey (lists service)) + 1
      else client.roundRobinCounters (counterKey (lists service)) := by
  intro service
  have hlt := hwrap service
  rw [sharing_cons] at hlt
  by_cases hkey : counterKey (lists other) = counterKey (lists service)
  · rw [if_pos hkey, List.length_cons] at hlt
    rw [if_pos hkey, hkey, countUp_roundRobinCounters, Function.update_self,
      Nat.mod_eq_of_lt (by omega)]
  · rw [if_neg hkey, countUp_roundRobinCounters, Function.update_of_ne (Ne.symm hkey)]

theorem NoWrap.tail {other : S} (hwrap : NoWrap lists client (other :: services)) :
    NoWrap lists (client.countUp (counterKey (lists other))) services := by
  intro service
  have hlt := hwrap service
  rw [sharing_cons] at hlt
  rw [hwrap.counter_countUp]
  by_cases hkey : counterKey (lists other) = counterKey (lists service)
  · rw [if_pos hkey, List.length_cons] at hlt
    rw [if_pos hkey]
    omega
  · rw [if_neg hkey] at hlt ⊢
    exact hlt

variable (lists) in
/-- A round for a service whose last call another one takes. -/
def interrupted (service other : S) : List S :=
  List.replicate ((lists service).length - 1) service ++ [other, service]

theorem sharing_interrupted {service other : S}
    (hkey : counterKey (lists other) = counterKey (lists service)) :
    sharing lists (interrupted lists service other) service =
      interrupted lists service other := by
  refine List.filter_eq_self.mpr fun s hs => ?_
  rw [interrupted, List.mem_append, List.mem_replicate, List.mem_pair] at hs
  rcases hs with ⟨-, rfl⟩ | rfl | rfl
  · exact decide_eq_true rfl
  · exact decide_eq_true hkey
  · exact decide_eq_true rfl

/-- Among choices from one list each endpoint is chosen once just if each place is. -/
theorem eachOnce_iff {endpoints : List ServiceEndpoint} {window : List (Selection S)}
    (hget : ∀ selection ∈ window, endpoints[selection.index]? = some selection.endpoint) :
    EachOnce endpoints window ↔
      (window.map Selection.index).Perm (List.range endpoints.length) := by
  constructor
  · intro h
    exact h.index
  · intro hperm
    refine ⟨hperm, perm_of_perm_range ?_ hperm⟩
    rw [List.map_map, List.map_map]
    exact List.map_congr_left fun selection hmem => (hget selection hmem).symm

end Selections

/-! ### What a service is given -/

section Fairness

variable {S : Type*} [DecidableEq S] (lists : S → List ServiceEndpoint)

/-- In any consecutive calls for a service, as many as it has endpoints, each endpoint is chosen
once. -/
def Fair (selections : List (Selection S)) : Prop :=
  ∀ service, Windows (lists service).length (EachOnce (lists service))
    (selections.filter fun selection => selection.service = service)

/-- The numbers of a service's own calls among them. -/
def turns (services : List S) (service : S) : List ℕ :=
  (sharing lists services service).findIdxs fun other => other = service

/-- Of any consecutive calls for a service, as many as it has endpoints, no two are a multiple of
that many calls apart, counting all calls that move its counter. -/
def Spread (services : List S) : Prop :=
  ∀ service, Windows (lists service).length (Apart (lists service).length)
    (turns lists services service)

variable {lists} {client : RpcClient} {services : List S}

/-- **What a service is given**: the places that its counter names when it has its turns. -/
theorem indices_selections (htwo : ∀ service, 2 ≤ (lists service).length) :
    NoWrap lists client services → ∀ service,
      ((client.selections lists services).filter (·.service = service)).map Selection.index =
        ((sharing lists services service).findIdxs (· = service)
          (client.roundRobinCounters (counterKey (lists service)))).map
            (· % (lists service).length) := by
  induction services generalizing client with
  | nil =>
    intro _ service
    rfl
  | cons other services ih =>
    intro hwrap service
    obtain ⟨endpoint, -, hselections⟩ := selections_cons client other services (htwo other)
    have hrest := ih hwrap.tail service
    rw [hwrap.counter_countUp] at hrest
    rw [hselections, List.filter_cons, sharing_cons]
    by_cases hkey : counterKey (lists other) = counterKey (lists service)
    · rw [if_pos hkey] at hrest
      rw [if_pos hkey, List.findIdxs_cons]
      by_cases hother : other = service
      · subst hother
        simp only [decide_true, if_true, List.map_cons, hrest]
        rfl
      · simp only [hother, decide_false, Bool.false_eq_true, if_false, hrest]
    · have hother : other ≠ service := fun h => hkey (h ▸ rfl)
      rw [if_neg hkey] at hrest
      simp only [hother, hkey, decide_false, Bool.false_eq_true, if_false, hrest]

/-- A sequence of calls is fair just if it is spread. -/
theorem fair_iff_spread (htwo : ∀ service, 2 ≤ (lists service).length)
    (hwrap : NoWrap lists client services) :
    Fair lists (client.selections lists services) ↔ Spread lists services := by
  refine forall_congr' fun service => ?_
  have hget : ∀ selection ∈ (client.selections lists services).filter (·.service = service),
      (lists service)[selection.index]? = some selection.endpoint := by
    intro selection hmem
    rw [List.mem_filter, decide_eq_true_eq] at hmem
    exact hmem.2 ▸ getElem?_of_mem_selections htwo selection hmem.1
  show Windows (lists service).length _ _ ↔ Windows (lists service).length _ _
  calc
    _ ↔ Windows (lists service).length
          (fun window => (window.map Selection.index).Perm (List.range (lists service).length))
          ((client.selections lists services).filter (·.service = service)) :=
        windows_congr fun window hsub _ => eachOnce_iff fun selection h => hget selection (hsub h)
    _ ↔ Windows (lists service).length
          (fun window => (window.map (· % (lists service).length)).Perm
            (List.range (lists service).length))
          ((sharing lists services service).findIdxs (· = service)
            (client.roundRobinCounters (counterKey (lists service)))) := by
        rw [← windows_map Selection.index (R := (List.Perm · (List.range (lists service).length))),
          indices_selections htwo hwrap, windows_map]
    _ ↔ Windows (lists service).length (Apart (lists service).length)
          ((sharing lists services service).findIdxs (· = service)
            (client.roundRobinCounters (counterKey (lists service)))) :=
        windows_congr fun window _ hlength => perm_range_iff_apart hlength
    -- where the counter stood at first makes no difference
    _ ↔ Windows (lists service).length (Apart (lists service).length)
          (turns lists services service) := by
        rw [List.findIdxs_start, windows_map]
        exact windows_congr fun window _ _ => apart_map_add _

/-- If no two lists begin alike, a service's turns are all the calls that move its counter. -/
theorem spread_of_injective (hinj : ∀ service other,
    counterKey (lists service) = counterKey (lists other) → service = other) :
    Spread lists services := by
  intro service
  have hall : ∀ other ∈ sharing lists services service, decide (other = service) = true := by
    intro other hmem
    rw [sharing, List.mem_filter, decide_eq_true_eq] at hmem
    exact decide_eq_true (hinj other service hmem.2)
  have hturns : turns lists services service =
      List.range (sharing lists services service).length := by
    rw [turns, findIdxs_eq_range' hall, List.range_eq_range']
  rw [hturns]
  exact windows_apart_range _ _

theorem turns_interrupted {service other : S} (hne : other ≠ service)
    (hkey : counterKey (lists other) = counterKey (lists service)) :
    turns lists (interrupted lists service other) service =
      List.range' 0 ((lists service).length - 1) ++ [(lists service).length - 1 + 1] := by
  rw [turns, sharing_interrupted hkey, interrupted, List.findIdxs_append,
    findIdxs_eq_range' fun s hs => decide_eq_true (List.eq_of_mem_replicate hs)]
  simp [hne]

/-- The service gets again what it got first, before it got the last of its endpoints. -/
theorem not_spread_interrupted {service other : S} (htwo : 2 ≤ (lists service).length)
    (hne : other ≠ service) (hkey : counterKey (lists other) = counterKey (lists service)) :
    ¬ Spread lists (interrupted lists service other) := by
  intro hspread
  have hlength : (turns lists (interrupted lists service other) service).length =
      (lists service).length := by
    rw [turns_interrupted hne hkey, List.length_append, List.length_range', List.length_singleton]
    omega
  have hapart := hspread service 0 (by omega)
  rw [List.drop_zero, List.take_of_length_le hlength.le, turns_interrupted hne hkey, Apart,
    List.pairwise_append] at hapart
  have hfirst : 0 ∈ List.range' 0 ((lists service).length - 1) :=
    List.mem_range'_1.mpr ⟨le_rfl, by omega⟩
  refine hapart.2.2 0 hfirst _ (List.mem_singleton_self _) ?_
  rw [Nat.sub_add_cancel (by omega)]
  exact (Nat.modEq_zero_iff_dvd.mpr dvd_rfl).symm

/-- **Calls are fair to every service** exactly if of any consecutive calls for a service, as many
as it has endpoints, no two are a multiple of that many calls apart, counting the calls for all
services whose lists begin with the same endpoint.  They are so however they are interleaved
exactly if no two lists begin with the same endpoint. -/
theorem selections_fair_iff :
    ∀ lists : S → List ServiceEndpoint, (∀ service, 2 ≤ (lists service).length) →
      (∀ client services, NoWrap lists client services →
        (Fair lists (client.selections lists services) ↔ Spread lists services)) ∧
      ((∀ services, Spread lists services) ↔
        ∀ service other, counterKey (lists service) = counterKey (lists other) →
          service = other) := by
  intro lists htwo
  refine ⟨fun client services hwrap => fair_iff_spread htwo hwrap, ?_, ?_⟩
  · intro hspread service other hkey
    by_contra hne
    exact not_spread_interrupted (htwo other) hne hkey (hspread _)
  · intro hinj services
    exact spread_of_injective hinj

/-- Two services with endpoints of their own. -/
def sampleApart : Bool → List ServiceEndpoint
  | false => [⟨utf8 "10.0.0.1", 8080⟩, ⟨utf8 "10.0.0.2", 8080⟩]
  | true => [⟨utf8 "10.0.0.3", 8080⟩, ⟨utf8 "10.0.0.4", 8080⟩]

theorem sampleApart_fair :
    Fair sampleApart (selections sampleApart {} [false, true, false, true]) ∧
      ∀ services, Spread sampleApart services := by
  obtain ⟨hfair, hall⟩ := selections_fair_iff sampleApart (by decide)
  have hspread := hall.mpr (by decide +kernel)
  exact ⟨(hfair {} _ (by unfold NoWrap; decide +kernel)).mpr (hspread _), hspread⟩

/-- Two services whose lists begin with the same endpoint. -/
def sampleAlike : Bool → List ServiceEndpoint
  | false => [⟨utf8 "10.0.0.1", 8080⟩, ⟨utf8 "10.0.0.2", 8080⟩]
  | true => [⟨utf8 "10.0.0.1", 8080⟩, ⟨utf8 "10.0.0.3", 8080⟩]

/-- Called in turns, the one always gets the first of its endpoints, and the other never. -/
theorem sampleAlike_unfair :
    (∀ service, 2 ≤ (sampleAlike service).length) ∧
      NoWrap sampleAlike {} [false, true, false, true] ∧
      (selections sampleAlike {} [false, true, false, true]).map Selection.index = [0, 1, 0, 1] ∧
      ¬ Fair sampleAlike (selections sampleAlike {} [false, true, false, true]) := by
  refine ⟨by decide, by unfold NoWrap; decide +kernel, by decide +kernel, fun hfair => ?_⟩
  exact absurd (hfair false 0 (by decide +kernel)).index (by decide +kernel)

end Fairness

end RpcClient
