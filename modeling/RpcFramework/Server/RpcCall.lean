import RpcFramework.Common.Network
import RpcFramework.Proto.RpcMessage

/-!
# The two ends of a call

What `RpcServer` answers to the bytes of a request, and what `RpcClient` makes of the
bytes of an answer.

## Main definitions

* `RpcServer.handleRpcRequest` — the response to a request.
* `RpcClient.readResponse` — `callEndpoint` from the answer on.
-/

open Rpc Wire

namespace RpcServer

/-- The registered handlers by `service.method`; a handler returns a result or throws an
exception with a text. -/
abbrev Handlers := Bytes → Option (Bytes → Except Bytes Bytes)

/-- The response `handleRpcRequest` builds for a request that could be read. -/
def respond (handlers : Handlers) (request : RpcRequest) : RpcResponse :=
  let methodKey := request.serviceName ++ utf8 "." ++ request.methodName
  match handlers methodKey with
  | some handler =>
      match handler request.requestData with
      | .ok result => { requestId := request.requestId, errorCode := 0, responseData := result }
      | .error what =>
          { requestId := request.requestId, errorCode := -2,
            errorMsg := utf8 "Handler execution failed: " ++ what }
  | none =>
      { requestId := request.requestId, errorCode := -1,
        errorMsg := utf8 "Method not found: " ++ methodKey }

/-- The response to bytes that could not be read. -/
def unreadable : RpcResponse where
  errorCode := -1
  errorMsg := utf8 "Failed to deserialize request"

/-- The bytes `handleRpcRequest` passes to `sendResponse`. -/
def handleRpcRequest (handlers : Handlers) (data : Bytes) : Bytes :=
  Serializer.serialize RpcResponse.codec
    ((Serializer.deserialize RpcRequest.codec data).elim unreadable (respond handlers))

end RpcServer

namespace RpcClient

/-- `callEndpoint` from `receive` on: the result, or the text of the exception.  The
request id of the response is not looked at. -/
def readResponse (data : Bytes) : Except Bytes Bytes :=
  if data = [] then .error (utf8 "Empty response from service")
  else
    match Serializer.deserialize RpcResponse.codec data with
    | none => .error (utf8 "Failed to deserialize RPC response")
    | some response =>
        if response.errorCode ≠ 0 then .error (utf8 "RPC error: " ++ response.errorMsg)
        else .ok response.responseData

end RpcClient
