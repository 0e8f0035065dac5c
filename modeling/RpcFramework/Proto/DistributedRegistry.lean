import RpcFramework.Lib.Wire

/-!
# Messages of `distributed_registry.proto`

The Raft messages a node exchanges with its peers, the log entry they carry and
the service operation a log entry's data holds.  Each message type is a structure
whose fields start at the proto3 defaults, with the schema of the `.proto` file
beside it: a field's number, its type, and how it is read and set.

## Main definitions

* `Rpc.LogEntry`, `Rpc.RequestVoteRequest`, `Rpc.AppendEntriesRequest`, … — the
  messages, each with its `schema` and its `codec`.

## Main results

* `Rpc.ServiceOperation.decode_encode` — an operation reads back.
* `Rpc.RequestVoteRequest.decode_encode` — a vote request reads back.
* `Rpc.RequestVoteRequest.decode_appendEntries` — what reading an append request
  as a vote request gives.
-/

namespace Rpc

open Wire

structure LogEntry where
  term : ℤ := 0
  index : ℤ := 0
  operation : Bytes := []
  data : Bytes := []
  deriving DecidableEq, Repr

def LogEntry.schema : List (FieldSpec LogEntry) :=
  [ .int64 1 LogEntry.term fun m x => { m with term := x },
    .int64 2 LogEntry.index fun m x => { m with index := x },
    .string 3 LogEntry.operation fun m x => { m with operation := x },
    .bytes 4 LogEntry.data fun m x => { m with data := x } ]

def LogEntry.codec : Codec LogEntry := .ofSchema {} LogEntry.schema

structure RequestVoteRequest where
  term : ℤ := 0
  candidateId : Bytes := []
  lastLogIndex : ℤ := 0
  lastLogTerm : ℤ := 0
  deriving DecidableEq, Repr

def RequestVoteRequest.schema : List (FieldSpec RequestVoteRequest) :=
  [ .int64 1 RequestVoteRequest.term fun m x => { m with term := x },
    .string 2 RequestVoteRequest.candidateId fun m x => { m with candidateId := x },
    .int64 3 RequestVoteRequest.lastLogIndex fun m x => { m with lastLogIndex := x },
    .int64 4 RequestVoteRequest.lastLogTerm fun m x => { m with lastLogTerm := x } ]

def RequestVoteRequest.codec : Codec RequestVoteRequest := .ofSchema {} RequestVoteRequest.schema

structure RequestVoteResponse where
  term : ℤ := 0
  voteGranted : Bool := false
  deriving DecidableEq, Repr

def RequestVoteResponse.schema : List (FieldSpec RequestVoteResponse) :=
  [ .int64 1 RequestVoteResponse.term fun m x => { m with term := x },
    .bool 2 RequestVoteResponse.voteGranted fun m x => { m with voteGranted := x } ]

def RequestVoteResponse.codec : Codec RequestVoteResponse :=
  .ofSchema {} RequestVoteResponse.schema

structure AppendEntriesRequest where
  term : ℤ := 0
  leaderId : Bytes := []
  prevLogIndex : ℤ := 0
  prevLogTerm : ℤ := 0
  entries : List LogEntry := []
  leaderCommit : ℤ := 0
  deriving DecidableEq, Repr

def AppendEntriesRequest.schema : List (FieldSpec AppendEntriesRequest) :=
  [ .int64 1 AppendEntriesRequest.term fun m x => { m with term := x },
    .string 2 AppendEntriesRequest.leaderId fun m x => { m with leaderId := x },
    .int64 3 AppendEntriesRequest.prevLogIndex fun m x => { m with prevLogIndex := x },
    .int64 4 AppendEntriesRequest.prevLogTerm fun m x => { m with prevLogTerm := x },
    .repeated 5 LogEntry.schema LogEntry.codec AppendEntriesRequest.entries
      fun m e => { m with entries := m.entries ++ [e] },
    .int64 6 AppendEntriesRequest.leaderCommit fun m x => { m with leaderCommit := x } ]

def AppendEntriesRequest.codec : Codec AppendEntriesRequest :=
  .ofSchema {} AppendEntriesRequest.schema

structure AppendEntriesResponse where
  term : ℤ := 0
  success : Bool := false
  matchIndex : ℤ := 0
  deriving DecidableEq, Repr

def AppendEntriesResponse.schema : List (FieldSpec AppendEntriesResponse) :=
  [ .int64 1 AppendEntriesResponse.term fun m x => { m with term := x },
    .bool 2 AppendEntriesResponse.success fun m x => { m with success := x },
    .int64 3 AppendEntriesResponse.matchIndex fun m x => { m with matchIndex := x } ]

def AppendEntriesResponse.codec : Codec AppendEntriesResponse :=
  .ofSchema {} AppendEntriesResponse.schema

/-- The message without fields: it is written as no bytes at all. -/
structure ClusterStatusRequest where
  deriving DecidableEq, Repr

def ClusterStatusRequest.codec : Codec ClusterStatusRequest := .ofSchema {} []

structure ServiceOperation where
  operationType : Bytes := []
  serviceName : Bytes := []
  host : Bytes := []
  port : ℤ := 0
  timestamp : ℤ := 0
  deriving DecidableEq, Repr

def ServiceOperation.schema : List (FieldSpec ServiceOperation) :=
  [ .string 1 ServiceOperation.operationType fun m x => { m with operationType := x },
    .string 2 ServiceOperation.serviceName fun m x => { m with serviceName := x },
    .string 3 ServiceOperation.host fun m x => { m with host := x },
    .int32 4 ServiceOperation.port fun m x => { m with port := x },
    .int64 5 ServiceOperation.timestamp fun m x => { m with timestamp := x } ]

def ServiceOperation.codec : Codec ServiceOperation := .ofSchema {} ServiceOperation.schema

/-! ### Service operations -/

theorem ServiceOperation.typed_iff {o : ServiceOperation} :
    Typed schema o ↔ InRange 32 o.port ∧ InRange 64 o.timestamp := by
  simp [Typed, schema, FieldSpec.int32, FieldSpec.int64, FieldSpec.string]

theorem ServiceOperation.text_iff {o : ServiceOperation} :
    Text schema o ↔ validUtf8 o.operationType = true ∧ validUtf8 o.serviceName = true ∧
      validUtf8 o.host = true := by
  simp [Text, schema, FieldSpec.int32, FieldSpec.int64, FieldSpec.string]

theorem ServiceOperation.fields_eq (o : ServiceOperation) :
    codec.fields o = bytesField 1 o.operationType ++ bytesField 2 o.serviceName ++
      bytesField 3 o.host ++ intField 4 o.port ++ intField 5 o.timestamp := by
  simp [codec, schema, Codec.ofSchema, FieldSpec.int32, FieldSpec.int64, FieldSpec.string]

/-- Folding the schema over the records of an operation gives the operation. -/
theorem ServiceOperation.foldlM_fields {o : ServiceOperation} (htyped : Typed schema o)
    (htext : Text schema o) : (codec.fields o).foldlM codec.mergeField {} = some o := by
  obtain ⟨hport, htime⟩ := typed_iff.mp htyped
  obtain ⟨htype, hname, hhost⟩ := text_iff.mp htext
  have h1 : (bytesField 1 o.operationType).foldlM codec.mergeField {} =
      some { operationType := o.operationType } :=
    foldlM_bytesField (fun h => by rw [h]) (by
      simp [codec, schema, Codec.ofSchema, FieldSpec.string, htype])
  have h2 : (bytesField 2 o.serviceName).foldlM codec.mergeField
      { operationType := o.operationType } =
      some { operationType := o.operationType, serviceName := o.serviceName } :=
    foldlM_bytesField (fun h => by rw [h]) (by
      simp [codec, schema, Codec.ofSchema, FieldSpec.string, hname])
  have h3 : (bytesField 3 o.host).foldlM codec.mergeField
      { operationType := o.operationType, serviceName := o.serviceName } =
      some { operationType := o.operationType, serviceName := o.serviceName, host := o.host } :=
    foldlM_bytesField (fun h => by rw [h]) (by
      simp [codec, schema, Codec.ofSchema, FieldSpec.string, hhost])
  have h4 : (intField 4 o.port).foldlM codec.mergeField
      { operationType := o.operationType, serviceName := o.serviceName, host := o.host } =
      some { o with timestamp := 0 } :=
    foldlM_intField (fun h => by rw [← h]) (by
      simp [codec, schema, Codec.ofSchema, FieldSpec.int32, FieldSpec.string,
        toInt32_ofInt hport])
  have h5 : (intField 5 o.timestamp).foldlM codec.mergeField { o with timestamp := 0 } =
      some o :=
    foldlM_intField (fun h => by rw [← h]) (by
      simp [codec, schema, Codec.ofSchema, FieldSpec.int32, FieldSpec.int64, FieldSpec.string,
        toInt_ofInt htime])
  simp only [fields_eq, List.foldlM_append, h1, h2, h3, h4, h5, Option.bind_eq_bind,
    Option.bind_some]

/-- **An operation reads back.** -/
theorem ServiceOperation.decode_encode {o : ServiceOperation} (htyped : Typed schema o)
    (htext : Text schema o) (hlen : (codec.encode o).length ≤ maxLength) :
    codec.decode (codec.encode o) = some o := by
  rw [Codec.decode_encode codec codec hlen]
  exact foldlM_fields htyped htext

/-- An operation is written in little more than its text. -/
theorem ServiceOperation.length_encode_le (o : ServiceOperation) :
    (codec.encode o).length ≤
      100 + o.operationType.length + o.serviceName.length + o.host.length := by
  have h1 := length_bytesField_le 1 o.operationType
  have h2 := length_bytesField_le 2 o.serviceName
  have h3 := length_bytesField_le 3 o.host
  have h4 := length_intField_le 4 o.port
  have h5 := length_intField_le 5 o.timestamp
  rw [Codec.encode, fields_eq]
  simp only [length_encodeFields_append]
  omega

/-! ### Reading the two requests of the Raft port -/

theorem RequestVoteRequest.typed_iff {v : RequestVoteRequest} :
    Typed schema v ↔ InRange 64 v.term ∧ InRange 64 v.lastLogIndex ∧ InRange 64 v.lastLogTerm := by
  simp [Typed, schema, FieldSpec.int64, FieldSpec.string]

theorem RequestVoteRequest.text_iff {v : RequestVoteRequest} :
    Text schema v ↔ validUtf8 v.candidateId = true := by
  simp [Text, schema, FieldSpec.int64, FieldSpec.string]

theorem RequestVoteRequest.fields_eq (v : RequestVoteRequest) :
    codec.fields v = intField 1 v.term ++ bytesField 2 v.candidateId ++
      intField 3 v.lastLogIndex ++ intField 4 v.lastLogTerm := by
  simp [codec, schema, Codec.ofSchema, FieldSpec.int64, FieldSpec.string]

theorem AppendEntriesRequest.typed_iff {a : AppendEntriesRequest} :
    Typed schema a ↔ InRange 64 a.term ∧ InRange 64 a.prevLogIndex ∧ InRange 64 a.prevLogTerm ∧
      (∀ e ∈ a.entries, Typed LogEntry.schema e) ∧ InRange 64 a.leaderCommit := by
  simp [Typed, schema, FieldSpec.int64, FieldSpec.string, FieldSpec.repeated]

theorem LogEntry.typed_iff {e : LogEntry} :
    Typed schema e ↔ InRange 64 e.term ∧ InRange 64 e.index := by
  simp [Typed, schema, FieldSpec.int64, FieldSpec.string, FieldSpec.bytes]

theorem RequestVoteResponse.typed_iff {v : RequestVoteResponse} :
    Typed schema v ↔ InRange 64 v.term := by
  simp [Typed, schema, FieldSpec.int64, FieldSpec.bool]

theorem AppendEntriesResponse.typed_iff {a : AppendEntriesResponse} :
    Typed schema a ↔ InRange 64 a.term ∧ InRange 64 a.matchIndex := by
  simp [Typed, schema, FieldSpec.int64, FieldSpec.bool]

instance (e : LogEntry) : Decidable (Typed LogEntry.schema e) :=
  decidable_of_iff _ LogEntry.typed_iff.symm

instance (v : RequestVoteRequest) : Decidable (Typed RequestVoteRequest.schema v) :=
  decidable_of_iff _ RequestVoteRequest.typed_iff.symm

instance (v : RequestVoteResponse) : Decidable (Typed RequestVoteResponse.schema v) :=
  decidable_of_iff _ RequestVoteResponse.typed_iff.symm

instance (a : AppendEntriesRequest) : Decidable (Typed AppendEntriesRequest.schema a) :=
  decidable_of_iff _ AppendEntriesRequest.typed_iff.symm

instance (a : AppendEntriesResponse) : Decidable (Typed AppendEntriesResponse.schema a) :=
  decidable_of_iff _ AppendEntriesResponse.typed_iff.symm

/-- The records of an append request: those of the vote request with the same
leading fields, and then two fields a vote request does not have. -/
theorem AppendEntriesRequest.fields_eq (a : AppendEntriesRequest) :
    codec.fields a =
      RequestVoteRequest.codec.fields ⟨a.term, a.leaderId, a.prevLogIndex, a.prevLogTerm⟩ ++
        (a.entries.map (fun e => ⟨5, .lengthDelimited (LogEntry.codec.encode e)⟩) ++
          intField 6 a.leaderCommit) := by
  rw [RequestVoteRequest.fields_eq]
  simp [codec, schema, Codec.ofSchema, FieldSpec.int64, FieldSpec.string, FieldSpec.repeated]

/-- Folding the schema over the records of a vote request gives the request. -/
theorem RequestVoteRequest.foldlM_fields {v : RequestVoteRequest} (htyped : Typed schema v)
    (htext : Text schema v) : (codec.fields v).foldlM codec.mergeField {} = some v := by
  obtain ⟨hterm, hindex, hlast⟩ := typed_iff.mp htyped
  rw [text_iff] at htext
  have h1 : (intField 1 v.term).foldlM codec.mergeField {} = some { term := v.term } :=
    foldlM_intField (fun h => by rw [h]) (by
      simp [codec, schema, Codec.ofSchema, FieldSpec.int64, toInt_ofInt hterm])
  have h2 : (bytesField 2 v.candidateId).foldlM codec.mergeField { term := v.term } =
      some { term := v.term, candidateId := v.candidateId } :=
    foldlM_bytesField (fun h => by rw [h]) (by
      simp [codec, schema, Codec.ofSchema, FieldSpec.int64, FieldSpec.string, htext])
  have h3 : (intField 3 v.lastLogIndex).foldlM codec.mergeField
      { term := v.term, candidateId := v.candidateId } =
      some { term := v.term, candidateId := v.candidateId, lastLogIndex := v.lastLogIndex } :=
    foldlM_intField (fun h => by rw [h]) (by
      simp [codec, schema, Codec.ofSchema, FieldSpec.int64, FieldSpec.string, toInt_ofInt hindex])
  have h4 : (intField 4 v.lastLogTerm).foldlM codec.mergeField
      { term := v.term, candidateId := v.candidateId, lastLogIndex := v.lastLogIndex } = some v :=
    foldlM_intField (fun h => by rw [← h]) (by
      simp [codec, schema, Codec.ofSchema, FieldSpec.int64, FieldSpec.string, toInt_ofInt hlast])
  simp only [fields_eq, List.foldlM_append, h1, h2, h3, h4, Option.bind_eq_bind, Option.bind_some]

/-- Without UTF-8 in the candidate's name the fold fails. -/
theorem RequestVoteRequest.foldlM_fields_none {v : RequestVoteRequest}
    (htext : ¬ Text schema v) : (codec.fields v).foldlM codec.mergeField {} = none := by
  rw [text_iff] at htext
  have hne : v.candidateId ≠ [] := by
    intro h
    simp [h] at htext
  obtain ⟨m, h1⟩ : ∃ m, (intField 1 v.term).foldlM codec.mergeField {} = some m := by
    by_cases h : v.term = 0
    · exact ⟨{}, by simp [intField, h]⟩
    · exact ⟨{ term := toInt 64 (ofInt v.term) }, by
        simp [intField, h, codec, schema, Codec.ofSchema, FieldSpec.int64]⟩
  have h2 : (bytesField 2 v.candidateId).foldlM codec.mergeField m = none :=
    foldlM_bytesField_none hne (by
      simp [codec, schema, Codec.ofSchema, FieldSpec.int64, FieldSpec.string, htext])
  simp only [fields_eq, List.foldlM_append, h1, h2, Option.bind_eq_bind, Option.bind_some,
    Option.bind_none]

/-- A vote request's schema does not know the fields after the fourth. -/
theorem RequestVoteRequest.mergeField_unknown {m : RequestVoteRequest} {f : Field}
    (h : 5 ≤ f.number) : codec.mergeField m f = some m := by
  have hfind : schema.find? (fun s => s.number == f.number) = none := by
    rw [List.find?_eq_none]
    simp only [schema, FieldSpec.int64, FieldSpec.string, List.mem_cons, List.not_mem_nil, or_false,
      forall_eq_or_imp, forall_eq, beq_iff_eq]
    omega
  simp only [codec, Codec.ofSchema, hfind]

/-- **A vote request reads back.** -/
theorem RequestVoteRequest.decode_encode {v : RequestVoteRequest}
    (htyped : Typed schema v) (htext : Text schema v)
    (hlen : (codec.encode v).length ≤ maxLength) : codec.decode (codec.encode v) = some v := by
  rw [Codec.decode_encode codec codec hlen]
  exact foldlM_fields htyped htext

/-- A vote request whose candidate is not UTF-8 is not read at all. -/
theorem RequestVoteRequest.decode_encode_none {v : RequestVoteRequest}
    (htext : ¬ Text schema v) (hlen : (codec.encode v).length ≤ maxLength) :
    codec.decode (codec.encode v) = none := by
  rw [Codec.decode_encode codec codec hlen]
  exact foldlM_fields_none htext

/-- What is left of an append request when it is read as a vote request. -/
def AppendEntriesRequest.asRequestVote (a : AppendEntriesRequest) : RequestVoteRequest where
  term := a.term
  candidateId := a.leaderId
  lastLogIndex := a.prevLogIndex
  lastLogTerm := a.prevLogTerm

/-- **The bytes of an append request are those of a vote request** with unknown
fields behind it, so a vote request is what reading them as one gives. -/
theorem RequestVoteRequest.decode_appendEntries {a : AppendEntriesRequest}
    (htyped : Typed AppendEntriesRequest.schema a) (htext : validUtf8 a.leaderId = true)
    (hlen : (AppendEntriesRequest.codec.encode a).length ≤ maxLength) :
    codec.decode (AppendEntriesRequest.codec.encode a) = some a.asRequestVote := by
  obtain ⟨hterm, hindex, hlast, -, -⟩ := AppendEntriesRequest.typed_iff.mp htyped
  have hread : (codec.fields a.asRequestVote).foldlM codec.mergeField {} = some a.asRequestVote :=
    foldlM_fields (typed_iff.mpr ⟨hterm, hindex, hlast⟩) (text_iff.mpr htext)
  rw [Codec.decode_encode AppendEntriesRequest.codec codec hlen, AppendEntriesRequest.fields_eq,
    List.foldlM_append]
  change ((codec.fields a.asRequestVote).foldlM codec.mergeField {}).bind _ = _
  rw [hread, Option.bind_some]
  refine foldlM_unknown fun f hf => mergeField_unknown ?_
  simp only [intField, List.mem_append, List.mem_map] at hf
  rcases hf with ⟨e, -, rfl⟩ | hf
  · exact le_rfl
  · split at hf
    · simp at hf
    · rw [List.mem_singleton.mp hf]
      exact Nat.le_succ 5

/-- Without UTF-8 in the leader's name the bytes of an append request are read
neither as a vote request nor as an append request. -/
theorem RequestVoteRequest.decode_appendEntries_none {a : AppendEntriesRequest}
    (htext : ¬ validUtf8 a.leaderId = true)
    (hlen : (AppendEntriesRequest.codec.encode a).length ≤ maxLength) :
    codec.decode (AppendEntriesRequest.codec.encode a) = none := by
  have hnone : (codec.fields a.asRequestVote).foldlM codec.mergeField {} = none :=
    foldlM_fields_none (mt text_iff.mp htext)
  rw [Codec.decode_encode AppendEntriesRequest.codec codec hlen, AppendEntriesRequest.fields_eq,
    List.foldlM_append]
  change ((codec.fields a.asRequestVote).foldlM codec.mergeField {}).bind _ = _
  rw [hnone, Option.bind_none]

theorem AppendEntriesRequest.decode_encode_none {a : AppendEntriesRequest}
    (htext : ¬ validUtf8 a.leaderId = true) (hlen : (codec.encode a).length ≤ maxLength) :
    codec.decode (codec.encode a) = none := by
  have hne : a.leaderId ≠ [] := by
    intro h
    simp [h] at htext
  obtain ⟨m, h1⟩ : ∃ m, (intField 1 a.term).foldlM codec.mergeField {} = some m := by
    by_cases h : a.term = 0
    · exact ⟨{}, by simp [intField, h]⟩
    · exact ⟨{ term := toInt 64 (ofInt a.term) }, by
        simp [intField, h, codec, schema, Codec.ofSchema, FieldSpec.int64]⟩
  have h2 : (bytesField 2 a.leaderId).foldlM codec.mergeField m = none :=
    foldlM_bytesField_none hne (by
      simp [codec, schema, Codec.ofSchema, FieldSpec.int64, FieldSpec.string, htext])
  rw [Codec.decode_encode codec codec hlen, fields_eq, RequestVoteRequest.fields_eq]
  simp only [List.foldlM_append, List.append_assoc]
  change ((intField 1 a.term).foldlM codec.mergeField {}).bind _ = _
  rw [h1, Option.bind_some]
  change ((bytesField 2 a.leaderId).foldlM codec.mergeField m).bind _ = _
  rw [h2, Option.bind_none]

end Rpc
