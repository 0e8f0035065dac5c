import Mathlib.Data.List.Induction
import RpcFramework.Server.RpcCall

/-!
# The service side of a call

`handleRpcRequest` answers a request with what a handler returns, or with an error: if the
bytes cannot be read, the method is not found, or the handler throws a `std::exception`.
Anything else that a handler throws passes every handler of exceptions on the way, and there is
no answer.

Handlers are found under one string made of the two names.  Names with dots in them can make
the same string in different ways.

What a handler is, is left open; `run` says how it behaves.

## Main definitions

* `RpcServer.State`, `RpcServer.State.registerService`, `RpcServer.State.handleRpcRequest`.
* `RpcServer.AnswersOnce`, `RpcServer.Answerable` — one frame is handed over, and is the answer.
* `RpcServer.Routes`, `RpcServer.Unambiguous` — the handler that is run is the pair's own.

## Main results

* `RpcServer.frames_eq` — what is sent is the response to the bytes, if there is one.
* `RpcServer.answersOnce_iff` — **the requests that are answered with one frame.**
* `RpcServer.handlers_registerAll` — the table after any registrations.
* `RpcServer.routes_iff` — **the requests that reach the handler of their pair**;
  `RpcServer.unambiguous_of_noDots` names those of services without dots in their names.
-/

open Rpc Wire

namespace RpcServer

/-- How a handler behaves on a request: it returns, throws a `std::exception` with a text, or
throws something else. -/
inductive Behaviour where
  | returned (result : Bytes)
  | threw (what : Bytes)
  | threwOther
  deriving DecidableEq, Repr

structure State (H : Type*) where
  handlers : Bytes → Option H := fun _ => none
  totalRequests : UInt64 := 0
  failedRequests : UInt64 := 0

/-- What became of a request: the server afterwards, the handler that was run, and the response,
if no exception left `handleRpcRequest`. -/
structure Handled (H : Type*) where
  server : State H
  ran : Option H
  response : Option RpcResponse

/-- The frames that were handed to `sendResponse`. -/
def Handled.frames {H : Type*} (handled : Handled H) : List Bytes :=
  handled.response.toList.map (Serializer.serialize RpcResponse.codec)

/-- The key under which a handler is kept. -/
def methodKey (serviceName methodName : Bytes) : Bytes := serviceName ++ utf8 "." ++ methodName

/-- The response that `sendErrorResponse` builds. -/
def errorResponse (requestId : Bytes) (errorCode : ℤ) (errorMsg : Bytes) : RpcResponse where
  requestId := requestId
  errorCode := errorCode
  errorMsg := errorMsg

/-- The response to a request with the result of its handler. -/
def resultResponse (request : RpcRequest) (result : Bytes) : RpcResponse where
  requestId := request.requestId
  errorCode := 0
  responseData := result

def handlerFailed (request : RpcRequest) (what : Bytes) : RpcResponse where
  requestId := request.requestId
  errorCode := -2
  errorMsg := utf8 "Handler execution failed: " ++ what

def methodNotFound (request : RpcRequest) : RpcResponse where
  requestId := request.requestId
  errorCode := -1
  errorMsg := utf8 "Method not found: " ++ methodKey request.serviceName request.methodName

namespace State

variable {H : Type*}

def registerService (s : State H) (serviceName methodName : Bytes) (handler : H) : State H :=
  { s with
    handlers := Function.update s.handlers (methodKey serviceName methodName) (some handler) }

/-- `++failed_requests_`. -/
def fail (s : State H) : State H := { s with failedRequests := s.failedRequests + 1 }

/-- The end of `handleRpcRequest`: the response is sent, or cannot be. -/
def reply (s : State H) (ran : Option H) (response : RpcResponse) (sent : Bool) : Handled H where
  server := if sent then s else s.fail
  ran := ran
  response := some response

/-- `handleRpcRequest`; `sent` is what `sendResponse` returns. -/
def handleRpcRequest (s : State H) (run : H → Bytes → Behaviour) (data : Bytes) (sent : Bool) :
    Handled H :=
  let s := { s with totalRequests := s.totalRequests + 1 }
  match Serializer.deserialize RpcRequest.codec data with
  | none => ⟨s.fail, none, some (errorResponse [] (-1) (utf8 "Failed to deserialize request"))⟩
  | some request =>
      match s.handlers (methodKey request.serviceName request.methodName) with
      | some handler =>
          match run handler request.requestData with
          | .returned result => s.reply (some handler) (resultResponse request result) sent
          | .threw what => s.fail.reply (some handler) (handlerFailed request what) sent
          -- neither here nor in the worker is there a handler for it
          | .threwOther => ⟨s, some handler, none⟩
      | none => s.fail.reply none (methodNotFound request) sent

end State

/-- The answers of a handler, for one that throws nothing but `std::exception`s. -/
def Behaviour.toExcept : Behaviour → Except Bytes Bytes
  | returned result => .ok result
  | threw what => .error what
  | threwOther => .error []

/-- The registered handlers as functions. -/
def State.table {H : Type*} (s : State H) (run : H → Bytes → Behaviour) : Handlers :=
  fun key => (s.handlers key).map fun handler requestData => (run handler requestData).toExcept

/-- **What is sent** is the response to the bytes, unless there is none. -/
theorem frames_eq {H : Type*} {s : State H} {run : H → Bytes → Behaviour} {data : Bytes}
    {sent : Bool} (h : (s.handleRpcRequest run data sent).response ≠ none) :
    (s.handleRpcRequest run data sent).frames =
      [RpcServer.handleRpcRequest (s.table run) data] := by
  rw [State.handleRpcRequest] at h ⊢
  rw [RpcServer.handleRpcRequest]
  cases hdecode : Serializer.deserialize RpcRequest.codec data with
  | none => rfl
  | some request =>
    rw [hdecode] at h
    simp only [Option.elim_some, respond, State.table]
    simp only [methodKey] at h ⊢
    cases hhandler : s.handlers (request.serviceName ++ utf8 "." ++ request.methodName) with
    | none => rfl
    | some handler =>
      simp only [hhandler] at h
      cases hrun : run handler request.requestData with
      | returned result =>
        simp only [Option.map_some, hrun, Behaviour.toExcept]
        rfl
      | threw what =>
        simp only [Option.map_some, hrun, Behaviour.toExcept]
        rfl
      | threwOther =>
        rw [hrun] at h
        exact absurd rfl h

section Answers

variable {H : Type*} {s : State H} {run : H → Bytes → Behaviour} {data : Bytes} {sent : Bool}

/-- The bytes can be read, and the handler of the method is found and returns. -/
def Returns (s : State H) (run : H → Bytes → Behaviour) (data : Bytes) : Prop :=
  ∃ request handler result, Serializer.deserialize RpcRequest.codec data = some request ∧
    s.handlers (methodKey request.serviceName request.methodName) = some handler ∧
    run handler request.requestData = .returned result

/-- One frame is handed over.  It echoes the id of a request that could be read, and its error
code is zero just if a handler returned. -/
def AnswersOnce (s : State H) (run : H → Bytes → Behaviour) (data : Bytes)
    (handled : Handled H) : Prop :=
  ∃ response, handled.frames = [RpcResponse.codec.encode response] ∧
    (∀ request, Serializer.deserialize RpcRequest.codec data = some request →
      response.requestId = request.requestId) ∧
    (response.errorCode = 0 ↔ Returns s run data)

/-- The response can be serialized. -/
def Fits (response : RpcResponse) : Prop :=
  (RpcResponse.codec.encode response).length ≤ Serializer.maxSize

/-- What the handler of a request that could be read must not do: throw something that is no
`std::exception`, or make the response too long.  A response that is too long goes out as an
empty frame, which is what a result without id and data is. -/
def Answerable (s : State H) (run : H → Bytes → Behaviour) (data : Bytes) : Prop :=
  ∀ request, Serializer.deserialize RpcRequest.codec data = some request →
    match s.handlers (methodKey request.serviceName request.methodName) with
    | some handler =>
        match run handler request.requestData with
        | .returned result => Fits (resultResponse request result) ∨ request.requestId = []
        | .threw what => Fits (handlerFailed request what)
        | .threwOther => False
    | none => Fits (methodNotFound request)

/-- No bytes are the bytes of no fields. -/
theorem encode_eq_nil {response : RpcResponse} (h : RpcResponse.codec.encode response = []) :
    response.requestId = [] ∧ response.errorCode = 0 := by
  have hfields : RpcResponse.codec.fields response = [] := encodeFields_eq_nil.mp h
  simp only [RpcResponse.codec, RpcResponse.schema, Codec.ofSchema, FieldSpec.string,
    FieldSpec.int32, List.flatMap_cons, List.append_eq_nil_iff, bytesField, intField] at hfields
  obtain ⟨hid, hcode, -⟩ := hfields
  refine ⟨?_, ?_⟩
  · by_contra hne
    rw [if_neg hne] at hid
    cases hid
  · by_contra hne
    rw [if_neg hne] at hcode
    cases hcode

theorem serialize_of_fits {response : RpcResponse} (h : Fits response) :
    Serializer.serialize RpcResponse.codec response = RpcResponse.codec.encode response := if_pos h

theorem serialize_of_not_fits {response : RpcResponse} (h : ¬ Fits response) :
    Serializer.serialize RpcResponse.codec response = [] := if_neg h

/-- A frame answers as a response would if the response fits, or if it is right to answer
with an empty frame. -/
theorem exists_answer_iff (response : RpcResponse) {returns : Prop}
    (hcode : response.errorCode = 0 ↔ returns) :
    (∃ r, [Serializer.serialize RpcResponse.codec response] = [RpcResponse.codec.encode r] ∧
        r.requestId = response.requestId ∧ (r.errorCode = 0 ↔ returns)) ↔
      Fits response ∨ response.requestId = [] ∧ returns := by
  by_cases hfits : Fits response
  · exact iff_of_true ⟨response, by rw [serialize_of_fits hfits], rfl, hcode⟩ (Or.inl hfits)
  · rw [or_iff_right hfits, serialize_of_not_fits hfits]
    constructor
    · rintro ⟨r, hframe, hrid, hrcode⟩
      obtain ⟨hnil, hzero⟩ := encode_eq_nil (List.cons.inj hframe).1.symm
      exact ⟨hrid.symm.trans hnil, hrcode.mp hzero⟩
    · rintro ⟨hnil, hreturns⟩
      exact ⟨{}, rfl, hnil.symm, iff_of_true rfl hreturns⟩

/-- Of bytes that can be read there is one request. -/
theorem forall_decoded_iff {request : RpcRequest} {P : RpcRequest → Prop}
    (hdecode : Serializer.deserialize RpcRequest.codec data = some request) :
    (∀ request', Serializer.deserialize RpcRequest.codec data = some request' → P request') ↔
      P request := by
  rw [hdecode]
  exact ⟨fun h => h request rfl, fun h request' heq => Option.some.inj heq ▸ h⟩

theorem returns_iff {request : RpcRequest}
    (hdecode : Serializer.deserialize RpcRequest.codec data = some request) :
    Returns s run data ↔ ∃ handler result,
      s.handlers (methodKey request.serviceName request.methodName) = some handler ∧
      run handler request.requestData = .returned result := by
  constructor
  · rintro ⟨request', handler, result, hrequest, hresult⟩
    obtain rfl := Option.some.inj (hdecode.symm.trans hrequest)
    exact ⟨handler, result, hresult⟩
  · rintro ⟨handler, result, hresult⟩
    exact ⟨request, handler, result, hdecode, hresult⟩

/-- A response with the id and the code it should have is an answer if it goes out as it is. -/
theorem answersOnce_iff_of_response {request : RpcRequest} (response : RpcResponse)
    {handled : Handled H} (hdecode : Serializer.deserialize RpcRequest.codec data = some request)
    (hresponse : handled.response = some response)
    (hid : response.requestId = request.requestId)
    (hcode : response.errorCode = 0 ↔ Returns s run data) :
    AnswersOnce s run data handled ↔
      Fits response ∨ request.requestId = [] ∧ Returns s run data := by
  have hframes : handled.frames = [Serializer.serialize RpcResponse.codec response] := by
    rw [Handled.frames, hresponse]
    rfl
  rw [AnswersOnce, hframes, ← hid]
  simp only [forall_decoded_iff hdecode, ← hid]
  exact exists_answer_iff response hcode

/-- **One frame answers a request** exactly if its handler, should there be one, throws nothing
but `std::exception`s, and the response is not too long. -/
theorem answersOnce_iff (s : State H) (run : H → Bytes → Behaviour) (data : Bytes) (sent : Bool) :
    AnswersOnce s run data (s.handleRpcRequest run data sent) ↔ Answerable s run data := by
  cases hdecode : Serializer.deserialize RpcRequest.codec data with
  | none =>
    have hnot : ¬ Returns s run data := by
      rintro ⟨request, handler, result, hrequest, -⟩
      rw [hdecode] at hrequest
      cases hrequest
    have hfits : Fits (errorResponse [] (-1) (utf8 "Failed to deserialize request")) := by
      rw [Fits]
      decide
    refine iff_of_true ⟨errorResponse [] (-1) (utf8 "Failed to deserialize request"), ?_, ?_, ?_⟩ ?_
    · rw [State.handleRpcRequest, hdecode, ← serialize_of_fits hfits]
      rfl
    · rw [hdecode]
      nofun
    · exact iff_of_false (show ¬ (-1 : ℤ) = 0 by decide) hnot
    · rw [Answerable, hdecode]
      nofun
  | some request =>
    have hreturns : Returns s run data ↔ _ := returns_iff hdecode
    rw [Answerable, forall_decoded_iff hdecode]
    cases hhandler : s.handlers (methodKey request.serviceName request.methodName) with
    | none =>
      have hnot : ¬ Returns s run data := by simp [hreturns, hhandler]
      refine (answersOnce_iff_of_response (methodNotFound request) hdecode ?_ rfl
        (iff_of_false (show ¬ (-1 : ℤ) = 0 by decide) hnot)).trans (or_iff_left fun h => hnot h.2)
      simp only [State.handleRpcRequest, hdecode, hhandler, State.reply]
    | some handler =>
      cases hrun : run handler request.requestData with
      | returned result =>
        have hreturned : Returns s run data := by simp [hreturns, hhandler, hrun]
        simp only [hrun]
        refine (answersOnce_iff_of_response (resultResponse request result) hdecode ?_
          rfl (iff_of_true rfl hreturned)).trans (or_congr_right (and_iff_left hreturned))
        simp only [State.handleRpcRequest, hdecode, hhandler, hrun, State.reply]
      | threw what =>
        have hnot : ¬ Returns s run data := by simp [hreturns, hhandler, hrun]
        simp only [hrun]
        refine (answersOnce_iff_of_response (handlerFailed request what) hdecode ?_ rfl
          (iff_of_false (show ¬ (-2 : ℤ) = 0 by decide) hnot)).trans (or_iff_left fun h => hnot h.2)
        simp only [State.handleRpcRequest, hdecode, hhandler, hrun, State.reply]
      | threwOther =>
        have hframes : (s.handleRpcRequest run data sent).frames = [] := by
          simp only [State.handleRpcRequest, hdecode, hhandler, hrun]
          rfl
        simp only [hrun]
        exact iff_of_false (fun ⟨_, hframe, _⟩ => by rw [hframes] at hframe; cases hframe) id

end Answers

/-- A handler for method `m` of service `s`. -/
def sampleServer : State Unit := ({} : State Unit).registerService (utf8 "s") (utf8 "m") ()

def sampleRequest : RpcRequest where
  requestId := utf8 "1"
  serviceName := utf8 "s"
  methodName := utf8 "m"

/-- The handler throws an `int`: the client is not answered. -/
theorem sampleThrow_notAnswered : ¬ ∀ (s : State Unit) (run : Unit → Bytes → Behaviour)
    (data : Bytes) (sent : Bool), AnswersOnce s run data (s.handleRpcRequest run data sent) := by
  intro h
  obtain ⟨_, hframe, -⟩ := h sampleServer (fun _ _ => .threwOther)
    (RpcRequest.codec.encode sampleRequest) true
  have hframes : (sampleServer.handleRpcRequest (fun _ _ => .threwOther)
      (RpcRequest.codec.encode sampleRequest) true).frames = [] := by decide +kernel
  rw [hframes] at hframe
  cases hframe

/-- A call of `registerService`. -/
structure Registration (H : Type*) where
  serviceName : Bytes
  methodName : Bytes
  handler : H

namespace Registration

variable {H : Type*}

def key (r : Registration H) : Bytes := methodKey r.serviceName r.methodName

/-- The pair of names is the request's. -/
def IsFor (r : Registration H) (request : RpcRequest) : Prop :=
  r.serviceName = request.serviceName ∧ r.methodName = request.methodName

instance (r : Registration H) (request : RpcRequest) : Decidable (r.IsFor request) :=
  inferInstanceAs (Decidable (_ ∧ _))

end Registration

section Routing

variable {H : Type*} {registrations : List (Registration H)} {request : RpcRequest}

/-- The server after a sequence of registrations. -/
def registerAll (registrations : List (Registration H)) : State H :=
  registrations.foldl (fun s r => s.registerService r.serviceName r.methodName r.handler) {}

/-- The last registration under a key. -/
def lastUnder (registrations : List (Registration H)) (key : Bytes) : Option (Registration H) :=
  registrations.reverse.find? fun r => r.key = key

/-- The last registration for the pair of a request. -/
def lastFor (registrations : List (Registration H)) (request : RpcRequest) :
    Option (Registration H) :=
  registrations.reverse.find? fun r => r.IsFor request

/-- The handler that is run is the one last registered for the pair of the request, and the
answer is that there is no such method just if none was. -/
def Routes (registrations : List (Registration H)) (request : RpcRequest) (handled : Handled H) :
    Prop :=
  (∀ handler, handled.ran = some handler ↔
    (lastFor registrations request).map Registration.handler = some handler) ∧
  (handled.response = some (methodNotFound request) ↔ ∀ r ∈ registrations, ¬ r.IsFor request)

/-- What was registered last under the key of the request is the handler that was registered last
for its pair. -/
def Unambiguous (registrations : List (Registration H)) (request : RpcRequest) : Prop :=
  ∀ r ∈ lastUnder registrations (methodKey request.serviceName request.methodName),
    (lastFor registrations request).map Registration.handler = some r.handler

instance [DecidableEq H] (registrations : List (Registration H)) (request : RpcRequest) :
    Decidable (Unambiguous registrations request) :=
  inferInstanceAs (Decidable (∀ r ∈ lastUnder registrations _, _ = _))

theorem registerAll_append (registrations : List (Registration H)) (r : Registration H) :
    registerAll (registrations ++ [r]) =
      (registerAll registrations).registerService r.serviceName r.methodName r.handler := by
  rw [registerAll, List.foldl_append]
  rfl

/-- **The table after any registrations** has the last one under each key. -/
theorem handlers_registerAll (registrations : List (Registration H)) (key : Bytes) :
    (registerAll registrations).handlers key =
      (lastUnder registrations key).map Registration.handler := by
  induction registrations using List.reverseRecOn with
  | nil => rfl
  | append_singleton registrations r ih =>
    rw [registerAll_append, lastUnder, List.reverse_concat, List.find?_cons]
    by_cases hkey : r.key = key
    · simp only [hkey, decide_true]
      rw [← hkey]
      exact Function.update_self ..
    · simp only [hkey, decide_false]
      exact (Function.update_of_ne (Ne.symm hkey) ..).trans ih

/-- A registration for the pair is one under the key of the pair. -/
theorem Registration.IsFor.key_eq {r : Registration H} (h : r.IsFor request) :
    r.key = methodKey request.serviceName request.methodName := by
  rw [Registration.key, h.1, h.2]

theorem lastFor_eq_none_iff :
    lastFor registrations request = none ↔ ∀ r ∈ registrations, ¬ r.IsFor request := by
  simp [lastFor]

/-- Nothing under the key is nothing for the pair. -/
theorem lastFor_eq_none
    (h : lastUnder registrations (methodKey request.serviceName request.methodName) = none) :
    lastFor registrations request = none := by
  rw [lastFor_eq_none_iff]
  intro r hr hfor
  rw [lastUnder, List.find?_eq_none] at h
  exact h r (List.mem_reverse.mpr hr) (decide_eq_true hfor.key_eq)

/-- The last registration under the key is the last one for the pair if it is for the pair. -/
theorem lastFor_eq_some {r : Registration H}
    (h : lastUnder registrations (methodKey request.serviceName request.methodName) = some r)
    (hfor : r.IsFor request) : lastFor registrations request = some r := by
  rw [lastUnder, List.find?_eq_some_iff_append] at h
  obtain ⟨-, later, earlier, hregs, hlater⟩ := h
  rw [lastFor, List.find?_eq_some_iff_append]
  refine ⟨decide_eq_true hfor, later, earlier, hregs, fun x hx => ?_⟩
  have hkey : ¬ x.key = methodKey request.serviceName request.methodName := by
    simpa using hlater x hx
  simpa using fun hfor' => hkey (Registration.IsFor.key_eq hfor')

theorem ran_handleRpcRequest {s : State H} {run : H → Bytes → Behaviour} {data : Bytes}
    {sent : Bool} (hdecode : Serializer.deserialize RpcRequest.codec data = some request) :
    (s.handleRpcRequest run data sent).ran =
      s.handlers (methodKey request.serviceName request.methodName) := by
  rw [State.handleRpcRequest, hdecode]
  cases hhandler : s.handlers (methodKey request.serviceName request.methodName) with
  | none => simp only [hhandler, State.reply]
  | some handler =>
    cases hrun : run handler request.requestData <;>
      simp only [hhandler, hrun, State.reply]

/-- The error code tells the response from those of a handler. -/
theorem response_eq_methodNotFound_iff {s : State H} {run : H → Bytes → Behaviour} {data : Bytes}
    {sent : Bool} (hdecode : Serializer.deserialize RpcRequest.codec data = some request) :
    (s.handleRpcRequest run data sent).response = some (methodNotFound request) ↔
      s.handlers (methodKey request.serviceName request.methodName) = none := by
  rw [State.handleRpcRequest, hdecode]
  cases hhandler : s.handlers (methodKey request.serviceName request.methodName) with
  | none => simp only [hhandler, State.reply]
  | some handler =>
    cases hrun : run handler request.requestData <;>
      simp [hhandler, hrun, State.reply, resultResponse, handlerFailed, methodNotFound]

/-- **A request reaches the handler of its pair** exactly if the last registration under its key
is one for its pair, or of the same handler. -/
theorem routes_iff (registrations : List (Registration H)) (run : H → Bytes → Behaviour)
    (data : Bytes) (sent : Bool) (request : RpcRequest)
    (hdecode : Serializer.deserialize RpcRequest.codec data = some request) :
    Routes registrations request ((registerAll registrations).handleRpcRequest run data sent) ↔
      Unambiguous registrations request := by
  rw [Routes, ran_handleRpcRequest hdecode, response_eq_methodNotFound_iff hdecode,
    handlers_registerAll, ← lastFor_eq_none_iff, Unambiguous]
  cases hunder : lastUnder registrations (methodKey request.serviceName request.methodName) with
  | none =>
    rw [lastFor_eq_none hunder]
    exact iff_of_true ⟨fun _ => Iff.rfl, iff_of_true rfl rfl⟩ nofun
  | some r =>
    simp only [Option.mem_def, Option.some.injEq, forall_eq', Option.map_some]
    constructor
    · rintro ⟨hran, -⟩
      exact (hran r.handler).mp rfl
    · intro hsame
      refine ⟨fun handler => by rw [hsame, Option.some.injEq], iff_of_false nofun fun hnone => ?_⟩
      rw [hnone] at hsame
      cases hsame

/-- A name without dots ends at the first dot of the key. -/
theorem takeWhile_methodKey {serviceName : Bytes} (methodName : Bytes)
    (h : 0x2E ∉ serviceName) :
    (methodKey serviceName methodName).takeWhile (· ≠ 0x2E) = serviceName := by
  have hservice : ∀ b ∈ serviceName, decide (b ≠ 0x2E) = true := fun b hb =>
    decide_eq_true fun heq => h (heq ▸ hb)
  rw [methodKey, List.append_assoc, List.takeWhile_append_of_pos hservice]
  exact List.append_nil _

theorem isFor_of_key_eq {r : Registration H} (hservice : 0x2E ∉ r.serviceName)
    (hrequest : 0x2E ∉ request.serviceName)
    (hkey : r.key = methodKey request.serviceName request.methodName) : r.IsFor request := by
  have hname : r.serviceName = request.serviceName := by
    rw [← takeWhile_methodKey r.methodName hservice,
      ← takeWhile_methodKey request.methodName hrequest, ← hkey, Registration.key]
  refine ⟨hname, ?_⟩
  rw [Registration.key, methodKey, methodKey, hname] at hkey
  exact List.append_cancel_left hkey

/-- **Services without dots in their names** are told apart, whatever their methods are called. -/
theorem unambiguous_of_noDots (hregs : ∀ r ∈ registrations, 0x2E ∉ r.serviceName)
    (hrequest : 0x2E ∉ request.serviceName) : Unambiguous registrations request := by
  intro r hr
  have hmem : r ∈ registrations := List.mem_reverse.mp (List.mem_of_find?_eq_some hr)
  have hkey : r.key = methodKey request.serviceName request.methodName := by
    simpa using List.find?_some hr
  rw [lastFor_eq_some hr (isFor_of_key_eq (hregs r hmem) hrequest hkey)]
  rfl

end Routing

/-- Method `b.c` of service `a` is found as method `c` of service `a.b`. -/
def sampleDots : RpcRequest where
  serviceName := utf8 "a"
  methodName := utf8 "b.c"

theorem sampleDots_misrouted : ¬ ∀ (registrations : List (Registration ℕ))
    (run : ℕ → Bytes → Behaviour) (data : Bytes) (sent : Bool) (request : RpcRequest),
    Serializer.deserialize RpcRequest.codec data = some request →
    Routes registrations request
      ((registerAll registrations).handleRpcRequest run data sent) := by
  intro h
  obtain ⟨hran, -⟩ := h [⟨utf8 "a.b", utf8 "c", 7⟩] (fun _ _ => .returned [])
    (RpcRequest.codec.encode sampleDots) true sampleDots (by decide +kernel)
  have hown := (hran 7).mp (by decide +kernel)
  exact absurd hown (by decide +kernel)

theorem routes_sample :
    Routes [⟨utf8 "a.b", utf8 "c", 7⟩, ⟨utf8 "a", utf8 "b.c", 8⟩] sampleDots
      ((registerAll [⟨utf8 "a.b", utf8 "c", 7⟩, ⟨utf8 "a", utf8 "b.c", 8⟩]).handleRpcRequest
        (fun _ _ => .returned []) (RpcRequest.codec.encode sampleDots) true) :=
  (routes_iff _ _ _ _ _ (by decide +kernel)).mpr (by decide +kernel)

end RpcServer
