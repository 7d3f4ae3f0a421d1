import LspClient.Json.Decode

/-!
# Messages

The messages of the protocol, built and told apart. A message with an `id` and a `method` is a
request, one with a `method` alone a notification, and one with a numeric `id` and a `result` or an
`error` a response. An `error` that is not of the required form still fails the call: it is quoted
in an internal error.
-/

namespace LspClient

/-- The error of a response. -/
structure ResponseError where
  code : Int
  message : String
  data : Option Json
  deriving Repr, Inhabited

namespace ResponseError

def methodNotFoundCode : Int := -32601

def invalidParamsCode : Int := -32602

def internalErrorCode : Int := -32603

def methodNotFound (method : String) : ResponseError :=
  ⟨methodNotFoundCode, s!"Method not found: {method}", none⟩

def invalidParams (message : String) : ResponseError := ⟨invalidParamsCode, message, none⟩

open Json

def decode : Decoder ResponseError :=
  record "ResponseError"
    [.of "code" Decoder.int64 false, .of "message" Decoder.text false,
     .of "data" (Decoder.nullable Decoder.any) true]
    fun ms => do
      let code ← ms.required "code" Decoder.int64
      let message ← ms.required "message" Decoder.text
      let data ← ms.optional "data" Decoder.any
      return ⟨code, message, data⟩

def toJson (e : ResponseError) : Json :=
  let data := match e.data with
    | some d => [("data", d)]
    | none => []
  .object ([("code", .int e.code), ("message", .str e.message)] ++ data)

end ResponseError

inductive Message where
  | response (id : Nat) (outcome : Except ResponseError Json)
  | request (id : Json) (method : String) (params : Option Json)
  | notification (method : String) (params : Option Json)

namespace Message

/-! ### Telling messages apart -/

def responseError (error : Json) : ResponseError :=
  match ResponseError.decode error with
  | .ok e => e
  | .error _ => ⟨ResponseError.internalErrorCode, error.compact, none⟩

/-- The outcome that a response holds, an error before a result. -/
def outcome? (frame : Json) : Option (Except ResponseError Json) :=
  match frame.get? "error", frame.get? "result" with
  | some error, _ => some (.error (responseError error))
  | none, some result => some (.ok result)
  | none, none => none

def classify (frame : Json) : Option Message :=
  match frame.get? "id", (frame.get? "method").bind Json.str? with
  | some id, none => do
    let id ← id.nat?
    let outcome ← outcome? frame
    return .response id outcome
  | some id, some method => some (.request id method (frame.get? "params"))
  | none, some method => some (.notification method (frame.get? "params"))
  | none, none => none

/-! ### Building messages -/

def version : String × Json := ("jsonrpc", .str "2.0")

def paramsEntry (params : Option Json) : List (String × Json) :=
  match params with
  | some p => [("params", p)]
  | none => []

def ofRequest (id : Nat) (method : String) (params : Option Json) : Json :=
  .object ([version, ("id", .nat id), ("method", .str method)] ++ paramsEntry params)

def ofNotification (method : String) (params : Option Json) : Json :=
  .object ([version, ("method", .str method)] ++ paramsEntry params)

def ofResult (id result : Json) : Json :=
  .object [version, ("id", id), ("result", result)]

def ofError (id : Json) (error : ResponseError) : Json :=
  .object [version, ("id", id), ("error", error.toJson)]

end Message

/-! ### Methods the client itself knows -/

namespace Method

def handshake : String := "initialize"
def handshakeDone : String := "initialized"
def shutdown : String := "shutdown"
def exit : String := "exit"
def cancelRequest : String := "$/cancelRequest"
def publishDiagnostics : String := "textDocument/publishDiagnostics"
def didOpen : String := "textDocument/didOpen"
def didChange : String := "textDocument/didChange"
def didSave : String := "textDocument/didSave"
def formatting : String := "textDocument/formatting"

end Method

end LspClient
