import RpcFramework.Lib.Wire

/-!
# Messages of `rpc_message.proto`

The messages clients exchange with a service and with the registry.  Three of the
registry's requests share their leading fields, so each can be read with the
schema of another; the lemmas at the end say what that gives.

## Main definitions

* `Rpc.RpcRequest`, `Rpc.RpcResponse` — a call and its answer.
* `Rpc.ServiceRegisterRequest`, `Rpc.ServiceDiscoveryRequest`, `Rpc.HeartbeatRequest`
  — the registry's requests, and the responses to them.

## Main results

* `Rpc.ServiceRegisterRequest.decode_encode`, `Rpc.ServiceDiscoveryRequest.decode_encode` —
  a request reads back.
* `Rpc.ServiceRegisterRequest.readable_of_decode` — what is read as a registration.
* `Rpc.HeartbeatRequest.decode_eq` — a heartbeat reads as a registration.
* `Rpc.ServiceDiscoveryRequest.encode_eq` — a discovery is a registration without host and
  port.
-/

namespace Rpc

open Wire

structure RpcRequest where
  serviceName : Bytes := []
  methodName : Bytes := []
  requestData : Bytes := []
  requestId : Bytes := []
  deriving DecidableEq, Repr

def RpcRequest.schema : List (FieldSpec RpcRequest) :=
  [ .string 1 RpcRequest.serviceName fun m x => { m with serviceName := x },
    .string 2 RpcRequest.methodName fun m x => { m with methodName := x },
    .bytes 3 RpcRequest.requestData fun m x => { m with requestData := x },
    .string 4 RpcRequest.requestId fun m x => { m with requestId := x } ]

def RpcRequest.codec : Codec RpcRequest := .ofSchema {} RpcRequest.schema

structure RpcResponse where
  requestId : Bytes := []
  errorCode : ℤ := 0
  errorMsg : Bytes := []
  responseData : Bytes := []
  deriving DecidableEq, Repr

def RpcResponse.schema : List (FieldSpec RpcResponse) :=
  [ .string 1 RpcResponse.requestId fun m x => { m with requestId := x },
    .int32 2 RpcResponse.errorCode fun m x => { m with errorCode := x },
    .string 3 RpcResponse.errorMsg fun m x => { m with errorMsg := x },
    .bytes 4 RpcResponse.responseData fun m x => { m with responseData := x } ]

def RpcResponse.codec : Codec RpcResponse := .ofSchema {} RpcResponse.schema

structure ServiceRegisterRequest where
  serviceName : Bytes := []
  host : Bytes := []
  port : ℤ := 0
  deriving DecidableEq, Repr

def ServiceRegisterRequest.schema : List (FieldSpec ServiceRegisterRequest) :=
  [ .string 1 ServiceRegisterRequest.serviceName fun m x => { m with serviceName := x },
    .string 2 ServiceRegisterRequest.host fun m x => { m with host := x },
    .int32 3 ServiceRegisterRequest.port fun m x => { m with port := x } ]

def ServiceRegisterRequest.codec : Codec ServiceRegisterRequest :=
  .ofSchema {} ServiceRegisterRequest.schema

structure ServiceRegisterResponse where
  success : Bool := false
  message : Bytes := []
  deriving DecidableEq, Repr

def ServiceRegisterResponse.schema : List (FieldSpec ServiceRegisterResponse) :=
  [ .bool 1 ServiceRegisterResponse.success fun m x => { m with success := x },
    .string 2 ServiceRegisterResponse.message fun m x => { m with message := x } ]

def ServiceRegisterResponse.codec : Codec ServiceRegisterResponse :=
  .ofSchema {} ServiceRegisterResponse.schema

structure ServiceDiscoveryRequest where
  serviceName : Bytes := []
  deriving DecidableEq, Repr

def ServiceDiscoveryRequest.schema : List (FieldSpec ServiceDiscoveryRequest) :=
  [ .string 1 ServiceDiscoveryRequest.serviceName fun m x => { m with serviceName := x } ]

def ServiceDiscoveryRequest.codec : Codec ServiceDiscoveryRequest :=
  .ofSchema {} ServiceDiscoveryRequest.schema

structure ServiceInfo where
  host : Bytes := []
  port : ℤ := 0
  lastHeartbeat : ℤ := 0
  deriving DecidableEq, Repr

def ServiceInfo.schema : List (FieldSpec ServiceInfo) :=
  [ .string 1 ServiceInfo.host fun m x => { m with host := x },
    .int32 2 ServiceInfo.port fun m x => { m with port := x },
    .int64 3 ServiceInfo.lastHeartbeat fun m x => { m with lastHeartbeat := x } ]

def ServiceInfo.codec : Codec ServiceInfo := .ofSchema {} ServiceInfo.schema

structure ServiceDiscoveryResponse where
  services : List ServiceInfo := []
  deriving DecidableEq, Repr

def ServiceDiscoveryResponse.schema : List (FieldSpec ServiceDiscoveryResponse) :=
  [ .repeated 1 ServiceInfo.schema ServiceInfo.codec ServiceDiscoveryResponse.services
      fun m x => { m with services := m.services ++ [x] } ]

def ServiceDiscoveryResponse.codec : Codec ServiceDiscoveryResponse :=
  .ofSchema {} ServiceDiscoveryResponse.schema

structure HeartbeatRequest where
  serviceName : Bytes := []
  host : Bytes := []
  port : ℤ := 0
  deriving DecidableEq, Repr

def HeartbeatRequest.schema : List (FieldSpec HeartbeatRequest) :=
  [ .string 1 HeartbeatRequest.serviceName fun m x => { m with serviceName := x },
    .string 2 HeartbeatRequest.host fun m x => { m with host := x },
    .int32 3 HeartbeatRequest.port fun m x => { m with port := x } ]

def HeartbeatRequest.codec : Codec HeartbeatRequest := .ofSchema {} HeartbeatRequest.schema

structure HeartbeatResponse where
  success : Bool := false
  message : Bytes := []
  deriving DecidableEq, Repr

def HeartbeatResponse.schema : List (FieldSpec HeartbeatResponse) :=
  [ .bool 1 HeartbeatResponse.success fun m x => { m with success := x },
    .string 2 HeartbeatResponse.message fun m x => { m with message := x } ]

def HeartbeatResponse.codec : Codec HeartbeatResponse := .ofSchema {} HeartbeatResponse.schema

/-! ### Registrations -/

theorem ServiceRegisterRequest.typed_iff {r : ServiceRegisterRequest} :
    Typed schema r ↔ InRange 32 r.port := by
  simp [Typed, schema, FieldSpec.int32, FieldSpec.string]

theorem ServiceRegisterRequest.text_iff {r : ServiceRegisterRequest} :
    Text schema r ↔ validUtf8 r.serviceName = true ∧ validUtf8 r.host = true := by
  simp [Text, schema, FieldSpec.int32, FieldSpec.string]

theorem ServiceRegisterRequest.fields_eq (r : ServiceRegisterRequest) :
    codec.fields r = bytesField 1 r.serviceName ++ bytesField 2 r.host ++ intField 3 r.port := by
  simp [codec, schema, Codec.ofSchema, FieldSpec.int32, FieldSpec.string]

/-- Merging the name of a service, which fails unless it is UTF-8. -/
theorem ServiceRegisterRequest.foldlM_serviceName (s : Bytes) :
    (bytesField 1 s).foldlM codec.mergeField {} =
      if validUtf8 s then some { serviceName := s } else none := by
  split
  · next hs =>
    exact foldlM_bytesField (fun h => by rw [h]) (by
      simp [codec, schema, Codec.ofSchema, FieldSpec.string, hs])
  · next hs =>
    have hne : s ≠ [] := by
      intro h
      simp [h] at hs
    exact foldlM_bytesField_none hne (by simp [codec, schema, Codec.ofSchema, FieldSpec.string, hs])

/-- Folding the schema over the records of a registration gives the registration. -/
theorem ServiceRegisterRequest.foldlM_fields {r : ServiceRegisterRequest} (htyped : Typed schema r)
    (htext : Text schema r) : (codec.fields r).foldlM codec.mergeField {} = some r := by
  rw [typed_iff] at htyped
  obtain ⟨hname, hhost⟩ := text_iff.mp htext
  have h1 : (bytesField 1 r.serviceName).foldlM codec.mergeField {} =
      some { serviceName := r.serviceName } := by
    rw [foldlM_serviceName, if_pos hname]
  have h2 : (bytesField 2 r.host).foldlM codec.mergeField { serviceName := r.serviceName } =
      some { serviceName := r.serviceName, host := r.host } :=
    foldlM_bytesField (fun h => by rw [h]) (by
      simp [codec, schema, Codec.ofSchema, FieldSpec.string, hhost])
  have h3 : (intField 3 r.port).foldlM codec.mergeField
      { serviceName := r.serviceName, host := r.host } = some r :=
    foldlM_intField (fun h => by rw [← h]) (by
      simp [codec, schema, Codec.ofSchema, FieldSpec.int32, FieldSpec.string,
        toInt32_ofInt htyped])
  simp only [fields_eq, List.foldlM_append, h1, h2, h3, Option.bind_eq_bind, Option.bind_some]

/-- Without UTF-8 in the name or the host the fold fails. -/
theorem ServiceRegisterRequest.foldlM_fields_none {r : ServiceRegisterRequest}
    (htext : ¬ Text schema r) : (codec.fields r).foldlM codec.mergeField {} = none := by
  rw [text_iff] at htext
  by_cases hname : validUtf8 r.serviceName = true
  · have hhost : ¬ validUtf8 r.host = true := fun h => htext ⟨hname, h⟩
    have hne : r.host ≠ [] := by
      intro h
      simp [h] at hhost
    have h2 : (bytesField 2 r.host).foldlM codec.mergeField { serviceName := r.serviceName } =
        none :=
      foldlM_bytesField_none hne (by
        simp [codec, schema, Codec.ofSchema, FieldSpec.string, hhost])
    simp only [fields_eq, List.foldlM_append, foldlM_serviceName, if_pos hname, h2,
      Option.bind_eq_bind, Option.bind_some, Option.bind_none]
  · simp only [fields_eq, List.foldlM_append, foldlM_serviceName, if_neg hname,
      Option.bind_eq_bind, Option.bind_none]

section Length

variable {r : ServiceRegisterRequest}
  (hlen : (ServiceRegisterRequest.codec.encode r).length ≤ maxLength)

include hlen

/-- **A registration reads back.** -/
theorem ServiceRegisterRequest.decode_encode (htyped : Typed schema r) (htext : Text schema r) :
    codec.decode (codec.encode r) = some r := by
  rw [Codec.decode_encode codec codec hlen]
  exact foldlM_fields htyped htext

theorem ServiceRegisterRequest.decode_encode_none (htext : ¬ Text schema r) :
    codec.decode (codec.encode r) = none := by
  rw [Codec.decode_encode codec codec hlen]
  exact foldlM_fields_none htext

end Length

/-- A registration has UTF-8 text, a port that is an `int32`, and no text longer than `size`. -/
structure ServiceRegisterRequest.Readable (size : ℕ) (r : ServiceRegisterRequest) : Prop where
  port : InRange 32 r.port
  serviceName : validUtf8 r.serviceName = true
  host : validUtf8 r.host = true
  length_serviceName : r.serviceName.length ≤ size
  length_host : r.host.length ≤ size

/-- **What is read as a registration** is one that could have been written. -/
theorem ServiceRegisterRequest.readable_of_decode {data : Bytes} {r : ServiceRegisterRequest}
    (h : codec.decode data = some r) : r.Readable data.length := by
  refine Codec.decode_invariant (P := Readable data.length) ?_ ?_ h
  · exact ⟨by decide, by decide, by decide, Nat.zero_le _, Nat.zero_le _⟩
  · intro m f m' hm hfits hmerge
    obtain ⟨number, value⟩ := f
    simp only [codec, schema, Codec.ofSchema, FieldSpec.string, FieldSpec.int32, List.find?_cons,
      List.find?_nil] at hmerge
    by_cases h1 : number = 1
    · subst h1
      cases value with
      | lengthDelimited s =>
        simp only [beq_self_eq_true, Option.ite_none_right_eq_some, Option.some.injEq] at hmerge
        obtain ⟨htext, rfl⟩ := hmerge
        exact ⟨hm.port, htext, hm.host, hfits, hm.length_host⟩
      | varint | fixed64 | group | fixed32 => simp_all
    · by_cases h2 : number = 2
      · subst h2
        cases value with
        | lengthDelimited s =>
          simp only [Nat.reduceBEq, beq_self_eq_true, Option.ite_none_right_eq_some,
            Option.some.injEq] at hmerge
          obtain ⟨htext, rfl⟩ := hmerge
          exact ⟨hm.port, hm.serviceName, htext, hm.length_serviceName, hfits⟩
        | varint | fixed64 | group | fixed32 => simp_all
      · by_cases h3 : number = 3
        · subst h3
          cases value with
          | varint n =>
            simp only [Nat.reduceBEq, beq_self_eq_true, Option.some.injEq] at hmerge
            rw [← hmerge]
            exact ⟨inRange_toInt32 n, hm.serviceName, hm.host, hm.length_serviceName,
              hm.length_host⟩
          | lengthDelimited | fixed64 | group | fixed32 => simp_all
        · -- a number the schema does not know
          simp only [beq_eq_false_iff_ne.mpr (Ne.symm h1), beq_eq_false_iff_ne.mpr (Ne.symm h2),
            beq_eq_false_iff_ne.mpr (Ne.symm h3), Option.some.injEq] at hmerge
          exact hmerge ▸ hm

/-! ### Heartbeats -/

theorem HeartbeatRequest.typed_iff {b : HeartbeatRequest} :
    Typed schema b ↔ InRange 32 b.port := by
  simp [Typed, schema, FieldSpec.int32, FieldSpec.string]

/-- The registration with the fields of a heartbeat. -/
def HeartbeatRequest.asRegister (b : HeartbeatRequest) : ServiceRegisterRequest where
  serviceName := b.serviceName
  host := b.host
  port := b.port

/-- A heartbeat and a registration are the same bytes. -/
theorem HeartbeatRequest.encode_eq (b : HeartbeatRequest) :
    codec.encode b = ServiceRegisterRequest.codec.encode b.asRegister := rfl

/-- The heartbeat with the fields of a registration. -/
def ServiceRegisterRequest.asHeartbeat (r : ServiceRegisterRequest) : HeartbeatRequest where
  serviceName := r.serviceName
  host := r.host
  port := r.port

/-- **Whatever reads as a heartbeat reads as a registration**, with the same fields. -/
theorem HeartbeatRequest.decode_eq (bs : Bytes) :
    codec.decode bs =
      (ServiceRegisterRequest.codec.decode bs).map ServiceRegisterRequest.asHeartbeat := by
  refine Codec.decode_map (h := ServiceRegisterRequest.asHeartbeat) rfl (fun m f => ?_) bs
  obtain ⟨number, value⟩ := f
  simp only [codec, schema, ServiceRegisterRequest.codec, ServiceRegisterRequest.schema,
    Codec.ofSchema, FieldSpec.string, FieldSpec.int32, List.find?_cons, List.find?_nil]
  -- the two schemas have the same three numbers, with fields of the same types
  by_cases h1 : number = 1
  · subst h1
    cases value <;> simp [ServiceRegisterRequest.asHeartbeat]
  · by_cases h2 : number = 2
    · subst h2
      cases value <;> simp [ServiceRegisterRequest.asHeartbeat]
    · by_cases h3 : number = 3
      · subst h3
        cases value <;> simp [ServiceRegisterRequest.asHeartbeat]
      · simp [beq_eq_false_iff_ne.mpr (Ne.symm h1), beq_eq_false_iff_ne.mpr (Ne.symm h2),
          beq_eq_false_iff_ne.mpr (Ne.symm h3)]

/-! ### Discoveries -/

/-- A discovery is the registration with the default host and port, on the wire. -/
theorem ServiceDiscoveryRequest.encode_eq (d : ServiceDiscoveryRequest) :
    codec.encode d = ServiceRegisterRequest.codec.encode { serviceName := d.serviceName } := by
  simp [codec, schema, Codec.encode, Codec.ofSchema, FieldSpec.string,
    ServiceRegisterRequest.codec, ServiceRegisterRequest.schema, FieldSpec.int32, bytesField,
    intField]

/-- **A discovery reads back**, if its name is UTF-8. -/
theorem ServiceDiscoveryRequest.decode_encode {d : ServiceDiscoveryRequest}
    (hlen : (codec.encode d).length ≤ maxLength) :
    codec.decode (codec.encode d) = if validUtf8 d.serviceName then some d else none := by
  rw [Codec.decode_encode codec codec hlen]
  have hfields : codec.fields d = bytesField 1 d.serviceName := by
    simp [codec, schema, Codec.ofSchema, FieldSpec.string]
  rw [hfields]
  split
  · next hs =>
    exact foldlM_bytesField (fun h => by cases d; cases h; rfl) (by
      simp [codec, schema, Codec.ofSchema, FieldSpec.string, hs])
  · next hs =>
    have hne : d.serviceName ≠ [] := by
      intro h
      simp [h] at hs
    exact foldlM_bytesField_none hne (by simp [codec, schema, Codec.ofSchema, FieldSpec.string, hs])

/-! ### Lists of instances -/

theorem ServiceInfo.typed_iff {info : ServiceInfo} :
    Typed schema info ↔ InRange 32 info.port ∧ InRange 64 info.lastHeartbeat := by
  simp [Typed, schema, FieldSpec.int32, FieldSpec.int64, FieldSpec.string]

theorem ServiceInfo.text_iff {info : ServiceInfo} :
    Text schema info ↔ validUtf8 info.host = true := by
  simp [Text, schema, FieldSpec.int32, FieldSpec.int64, FieldSpec.string]

theorem ServiceInfo.fields_eq (info : ServiceInfo) :
    codec.fields info =
      bytesField 1 info.host ++ intField 2 info.port ++ intField 3 info.lastHeartbeat := by
  simp [codec, schema, Codec.ofSchema, FieldSpec.int32, FieldSpec.int64, FieldSpec.string]

/-- Folding the schema over the records of an instance gives the instance. -/
theorem ServiceInfo.foldlM_fields {info : ServiceInfo} (htyped : Typed schema info)
    (htext : Text schema info) : (codec.fields info).foldlM codec.mergeField {} = some info := by
  obtain ⟨hport, hheartbeat⟩ := typed_iff.mp htyped
  rw [text_iff] at htext
  have h1 : (bytesField 1 info.host).foldlM codec.mergeField {} = some { host := info.host } :=
    foldlM_bytesField (fun h => by rw [h]) (by
      simp [codec, schema, Codec.ofSchema, FieldSpec.string, htext])
  have h2 : (intField 2 info.port).foldlM codec.mergeField { host := info.host } =
      some { host := info.host, port := info.port } :=
    foldlM_intField (fun h => by rw [h]) (by
      simp [codec, schema, Codec.ofSchema, FieldSpec.int32, FieldSpec.string, toInt32_ofInt hport])
  have h3 : (intField 3 info.lastHeartbeat).foldlM codec.mergeField
      { host := info.host, port := info.port } = some info :=
    foldlM_intField (fun h => by rw [← h]) (by
      simp [codec, schema, Codec.ofSchema, FieldSpec.int32, FieldSpec.int64, FieldSpec.string,
        toInt_ofInt hheartbeat])
  simp only [fields_eq, List.foldlM_append, h1, h2, h3, Option.bind_eq_bind, Option.bind_some]

/-- **An instance reads back.** -/
theorem ServiceInfo.decode_encode {info : ServiceInfo} (htyped : Typed schema info)
    (htext : Text schema info) (hlen : (codec.encode info).length ≤ maxLength) :
    codec.decode (codec.encode info) = some info := by
  rw [Codec.decode_encode codec codec hlen]
  exact foldlM_fields htyped htext

theorem ServiceDiscoveryResponse.fields_eq (r : ServiceDiscoveryResponse) :
    codec.fields r =
      r.services.map fun info => ⟨1, .lengthDelimited (ServiceInfo.codec.encode info)⟩ := by
  simp [codec, schema, Codec.ofSchema, FieldSpec.repeated]

/-- What is written of an instance is within what is written of the list. -/
theorem ServiceDiscoveryResponse.length_encode_le {r : ServiceDiscoveryResponse}
    {info : ServiceInfo} (h : info ∈ r.services) :
    (ServiceInfo.codec.encode info).length ≤ (codec.encode r).length := by
  obtain ⟨before, after, hsplit⟩ := List.append_of_mem h
  have henc : codec.encode r = encodeFields (codec.fields r) := rfl
  rw [henc, fields_eq, hsplit, List.map_append, List.map_cons, length_encodeFields_append,
    encodeFields_cons, List.length_append]
  simp only [encodeField, List.length_append]
  omega

/-- **A list of instances reads back.** -/
theorem ServiceDiscoveryResponse.decode_encode {r : ServiceDiscoveryResponse}
    (htyped : ∀ info ∈ r.services, Typed ServiceInfo.schema info)
    (htext : ∀ info ∈ r.services, Text ServiceInfo.schema info)
    (hlen : (codec.encode r).length ≤ maxLength) : codec.decode (codec.encode r) = some r := by
  have hfold : ∀ (infos before : List ServiceInfo),
      (∀ info ∈ infos, ServiceInfo.codec.decode (ServiceInfo.codec.encode info) = some info) →
      (infos.map fun info => (⟨1, .lengthDelimited (ServiceInfo.codec.encode info)⟩ : Field)).foldlM
        codec.mergeField { services := before } = some { services := before ++ infos } := by
    intro infos
    induction infos with
    | nil => intro before _; simp
    | cons info infos ih =>
      intro before hread
      rw [List.forall_mem_cons] at hread
      have hmerge : codec.mergeField { services := before }
          ⟨1, .lengthDelimited (ServiceInfo.codec.encode info)⟩ =
            some { services := before ++ [info] } := by
        simp [codec, schema, Codec.ofSchema, FieldSpec.repeated, hread.1]
      rw [List.map_cons, List.foldlM_cons, hmerge]
      have hrest := ih (before ++ [info]) hread.2
      rw [List.append_assoc] at hrest
      exact hrest
  rw [Codec.decode_encode codec codec hlen, fields_eq]
  refine hfold r.services [] ?_
  intro info hinfo
  exact ServiceInfo.decode_encode (htyped info hinfo) (htext info hinfo)
    ((length_encode_le hinfo).trans hlen)

end Rpc
