import RpcFramework.Server.RpcServer

/-!
# What a server counts

`handleRpcRequest` counts every request once when it arrives, and counts a failure wherever
one shows: bytes that cannot be read, a method that is not found, a handler that throws, a
response that cannot be sent.  The last may come on top of the two before it, and then one
request has failed twice.

`printStats` subtracts the failures from the requests, in a type that has no numbers below
zero.  The counters themselves start again at zero after `2 ^ 64` requests.

## Main definitions

* `RpcServer.Delivery`, `RpcServer.handleAll` — requests that arrive one after the other.
* `RpcServer.Accounted` — no more requests have failed than there were.
* `RpcServer.Delivery.failsTwice`, `RpcServer.Delivery.neverFails` — the requests whose
  failures are not one; `RpcServer.failures` — those of a sequence.

## Main results

* `RpcServer.handle_failedRequests`, `RpcServer.handleAll_counts` — the failures of one request and
  of a sequence.
* `RpcServer.successfulRequests_eq_iff` — the subtraction is right just if they are accounted
  for.
* `RpcServer.requestsAccounted_iff` — **the sequences that are accounted for throughout.**
-/

open Rpc Wire

namespace RpcServer

/-- A request that arrives: its bytes, how the handlers behave at the time, and whether the
response can be sent. -/
structure Delivery (H : Type*) where
  data : Bytes
  run : H → Bytes → Behaviour
  sent : Bool

section Accounting

variable {H : Type*}

def State.handle (s : State H) (d : Delivery H) : State H :=
  (s.handleRpcRequest d.run d.data d.sent).server

/-- The server after a sequence of requests. -/
def handleAll (s : State H) (deliveries : List (Delivery H)) : State H :=
  deliveries.foldl State.handle s

/-- The difference of `printStats`, of two `size_t`. -/
def State.successfulRequests (s : State H) : UInt64 := s.totalRequests - s.failedRequests

/-- No more requests have failed than there were. -/
def Accounted (s : State H) : Prop := s.failedRequests ≤ s.totalRequests

/-- What a request meets with, if it can be read: a handler that behaves in some way, or none. -/
def Delivery.met (d : Delivery H) (handlers : Bytes → Option H) : Option (Option Behaviour) :=
  (Serializer.deserialize RpcRequest.codec d.data).map fun request =>
    (handlers (methodKey request.serviceName request.methodName)).map fun handler =>
      d.run handler request.requestData

/-- The method is not found or its handler throws a `std::exception`, and the response to that
cannot be sent. -/
def Delivery.failsTwice (d : Delivery H) (handlers : Bytes → Option H) : Bool :=
  match d.met handlers with
  | some none | some (some (.threw _)) => !d.sent
  | none | some (some (.returned _)) | some (some .threwOther) => false

/-- No failure is counted: the handler returns and the response is sent, or it throws what
nobody catches. -/
def Delivery.neverFails (d : Delivery H) (handlers : Bytes → Option H) : Bool :=
  match d.met handlers with
  | some (some (.returned _)) => d.sent
  | some (some .threwOther) => true
  | none | some none | some (some (.threw _)) => false

variable {s : State H} {handlers : Bytes → Option H}

/-- The response costs a failure if it cannot be sent. -/
theorem failedRequests_reply (ran : Option H) (response : RpcResponse) (sent : Bool) :
    (s.reply ran response sent).server.failedRequests =
      s.failedRequests + UInt64.ofNat (!sent).toNat := by
  cases sent with
  | false => rfl
  | true => exact (UInt64.add_zero _).symm

/-- **The failures of one request** are one, one more, or one less. -/
theorem handle_failedRequests (s : State H) (d : Delivery H) :
    (s.handle d).failedRequests + UInt64.ofNat (d.neverFails s.handlers).toNat =
      s.failedRequests + 1 + UInt64.ofNat (d.failsTwice s.handlers).toNat := by
  rw [State.handle, State.handleRpcRequest, Delivery.neverFails, Delivery.failsTwice, Delivery.met]
  cases hdecode : Serializer.deserialize RpcRequest.codec d.data with
  | none => rfl
  | some request =>
    simp only [Option.map_some]
    cases hhandler : s.handlers (methodKey request.serviceName request.methodName) with
    | none =>
      simp only [Option.map_none]
      rw [failedRequests_reply]
      exact UInt64.add_zero _
    | some handler =>
      simp only [Option.map_some]
      cases hrun : d.run handler request.requestData with
      | returned result =>
        simp only
        rw [failedRequests_reply]
        cases d.sent with
        | false => rfl
        | true => exact congrArg (· + 1) (UInt64.add_zero _) |>.trans (UInt64.add_zero _).symm
      | threw what =>
        simp only
        rw [failedRequests_reply]
        exact UInt64.add_zero _
      | threwOther => exact (UInt64.add_zero _).symm

/-- Apart from the failures, a request is counted and nothing else changes. -/
theorem handle_eq (s : State H) (d : Delivery H) :
    s.handle d =
      { s with
        totalRequests := s.totalRequests + 1
        failedRequests := (s.handle d).failedRequests } := by
  rw [State.handle, State.handleRpcRequest]
  split
  · rfl
  · next request hdecode =>
    split
    · next handler hhandler =>
      split
      · cases d.sent <;> rfl
      · cases d.sent <;> rfl
      · rfl
    · cases d.sent <;> rfl

/-- **The counters after a sequence**, which count modulo `2 ^ 64`. -/
theorem handleAll_counts (s : State H) (deliveries : List (Delivery H)) :
    (handleAll s deliveries).totalRequests =
        s.totalRequests + UInt64.ofNat deliveries.length ∧
      (handleAll s deliveries).failedRequests +
          UInt64.ofNat (deliveries.countP fun d => d.neverFails s.handlers) =
        s.failedRequests + UInt64.ofNat deliveries.length +
          UInt64.ofNat (deliveries.countP fun d => d.failsTwice s.handlers) := by
  induction deliveries generalizing s with
  | nil => exact ⟨(UInt64.add_zero _).symm, (UInt64.add_zero _).symm⟩
  | cons d deliveries ih =>
    obtain ⟨htotal, hfailed⟩ := ih (s.handle d)
    have hite : ∀ b : Bool, (if b = true then 1 else 0) = b.toNat := fun b =>
      (Bool.cond_eq_ite b 1 0).symm
    have hone := handle_failedRequests s d
    have hcount : (s.handle d).totalRequests = s.totalRequests + 1 := by rw [handle_eq]
    have hhandlers : (s.handle d).handlers = s.handlers := by rw [handle_eq]
    have hrest : handleAll s (d :: deliveries) = handleAll (s.handle d) deliveries := rfl
    have hlength : UInt64.ofNat (d :: deliveries).length = UInt64.ofNat deliveries.length + 1 :=
      UInt64.ofNat_add _ _
    rw [hcount] at htotal
    rw [hhandlers] at hfailed
    rw [hrest, List.countP_cons, List.countP_cons, hite, hite, hlength, UInt64.ofNat_add,
      UInt64.ofNat_add]
    exact ⟨by grind, by grind⟩

/-- The subtraction gives the number of requests that have not failed just if no more have
failed than there were. -/
theorem successfulRequests_eq_iff :
    s.successfulRequests.toNat + s.failedRequests.toNat = s.totalRequests.toNat ↔
      Accounted s := by
  rw [State.successfulRequests, Accounted, UInt64.toNat_sub, UInt64.le_iff_toNat_le]
  have htotal := s.totalRequests.toNat_lt
  have hfailed := s.failedRequests.toNat_lt
  omega

/-- The failures of a sequence of requests: one for each, one more for those that fail twice, and
none for those that never fail. -/
def failures (handlers : Bytes → Option H) (deliveries : List (Delivery H)) : ℕ :=
  deliveries.length + deliveries.countP (fun d => d.failsTwice handlers) -
    deliveries.countP (fun d => d.neverFails handlers)

/-- Of a new server the counters are the requests and their failures, modulo `2 ^ 64`. -/
theorem accounted_handleAll_iff (handlers : Bytes → Option H) (deliveries : List (Delivery H)) :
    Accounted (handleAll { handlers := handlers } deliveries) ↔
      failures handlers deliveries % 2 ^ 64 ≤ deliveries.length % 2 ^ 64 := by
  obtain ⟨htotal, hfailed⟩ := handleAll_counts { handlers := handlers } deliveries
  have hnever := List.countP_le_length (l := deliveries) (p := fun d => d.neverFails handlers)
  have hsum : failures handlers deliveries +
      deliveries.countP (fun d => d.neverFails handlers) =
        deliveries.length + deliveries.countP (fun d => d.failsTwice handlers) := by
    rw [failures]
    omega
  rw [UInt64.zero_add] at htotal
  rw [UInt64.zero_add, ← UInt64.ofNat_add, ← hsum, UInt64.ofNat_add, UInt64.add_left_inj] at hfailed
  rw [Accounted, htotal, hfailed, UInt64.le_iff_toNat_le, UInt64.toNat_ofNat', UInt64.toNat_ofNat']

/-- **After every request of a sequence the counters are accounted for** exactly if at no time
there were, modulo `2 ^ 64`, more failures than requests; and of fewer than `2 ^ 63` requests
exactly if at no time more had failed twice than had not failed at all. -/
theorem requestsAccounted_iff (handlers : Bytes → Option H) (deliveries : List (Delivery H)) :
    ((∀ k, Accounted (handleAll { handlers := handlers } (deliveries.take k))) ↔
      ∀ k, failures handlers (deliveries.take k) % 2 ^ 64 ≤
        (deliveries.take k).length % 2 ^ 64) ∧
    (deliveries.length < 2 ^ 63 →
      ((∀ k, Accounted (handleAll { handlers := handlers } (deliveries.take k))) ↔
        ∀ k, (deliveries.take k).countP (fun d => d.failsTwice handlers) ≤
          (deliveries.take k).countP (fun d => d.neverFails handlers))) := by
  refine ⟨forall_congr' fun k => accounted_handleAll_iff handlers _, fun hlen => ?_⟩
  refine forall_congr' fun k => ?_
  have htake : (deliveries.take k).length ≤ deliveries.length := List.length_take_le' k deliveries
  have htwice := List.countP_le_length (l := deliveries.take k)
    (p := fun d => d.failsTwice handlers)
  have hnever := List.countP_le_length (l := deliveries.take k)
    (p := fun d => d.neverFails handlers)
  rw [accounted_handleAll_iff, failures, Nat.mod_eq_of_lt (by omega), Nat.mod_eq_of_lt (by omega)]
  omega

/-- A request for a method that nobody registered, from a client that has gone. -/
def sampleGone : Delivery Unit where
  data := RpcRequest.codec.encode sampleRequest
  run _ _ := .returned []
  sent := false

/-- A request that is served, and one that the server does not know. -/
def sampleDeliveries : List (Delivery Unit) :=
  [{ sampleGone with sent := true },
    { sampleGone with data := RpcRequest.codec.encode { requestId := utf8 "2" } }]

/-- The one makes up for the other. -/
theorem requestsAccounted_sample : ∀ k,
    Accounted (handleAll { handlers := sampleServer.handlers } (sampleDeliveries.take k)) := by
  refine ((requestsAccounted_iff sampleServer.handlers _).2 (by decide)).mpr ?_
  intro k
  match k with
  | 0 => decide
  | 1 => decide +kernel
  | k + 2 =>
    rw [List.take_of_length_le (show sampleDeliveries.length ≤ k + 2 from Nat.le_add_left 2 k)]
    decide +kernel

/-- The request is counted once, and its failures twice. -/
theorem sampleGone_notAccounted : ¬ ∀ (handlers : Bytes → Option Unit)
    (deliveries : List (Delivery Unit)) (k : ℕ),
    Accounted (handleAll { handlers := handlers } (deliveries.take k)) := by
  intro h
  have haccounted := h (fun _ => none) [sampleGone] 1
  rw [Accounted] at haccounted
  exact absurd haccounted (by decide +kernel)

end Accounting

end RpcServer
