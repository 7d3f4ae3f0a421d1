import LspClient.Message.Basic
import LspClient.Proofs.Json.Ordered

/-!
# Messages told apart again

A message that was built is told apart as what it was built as (`Message.classify_built`): a request
or a notification with its method and its parameters, a response with its identifier and its result
or its error. What parameters, results and data hold has no part in this. An error is read again as
it was but for data that are null, which count as none (`ResponseError.decode_toJson`).
-/

namespace LspClient

theorem Json.nat?_nat (n : Nat) : (Json.nat n).nat? = some n := by
  simp [Json.nat, Json.nat?]

namespace ResponseError

open Json

/-- The error without data that are null. -/
def withoutNull (e : ResponseError) : ResponseError :=
  { e with data := e.data.filter fun d => !d.isNull }

theorem nullable_any (d : Json) :
    Decoder.nullable Decoder.any d = .ok ((some d).filter fun d => !d.isNull) := by
  cases d <;> rfl

/-- The entries of an error that is written. -/
def entries (e : ResponseError) : List (String × Json) :=
  [("code", .int e.code), ("message", .str e.message)] ++ (e.data.map fun d => ("data", d)).toList

theorem toJson_eq (e : ResponseError) : e.toJson = object e.entries := by
  obtain ⟨code, message, data⟩ := e
  cases data <;> rfl

theorem lookup_entries (e : ResponseError) :
    e.entries.reverse.lookup "code" = some (.int e.code) ∧
    e.entries.reverse.lookup "message" = some (.str e.message) ∧
    e.entries.reverse.lookup "data" = e.data := by
  obtain ⟨code, message, data⟩ := e
  cases data <;> simp [entries, List.lookup_cons]

theorem decode_toJson {e : ResponseError}
    (hcode : -9223372036854775808 ≤ e.code ∧ e.code ≤ 9223372036854775807) :
    decode e.toJson = .ok e.withoutNull := by
  have hint : Decoder.int64 (.int e.code) = .ok e.code := if_pos hcode
  obtain ⟨hcodeAt, hmessageAt, hdataAt⟩ := e.lookup_entries
  rw [toJson_eq, decode, record_object]
  · have hdata : Members.optional (fun key => e.entries.reverse.lookup key) "data" Decoder.any =
        .ok (e.data.filter fun d => !d.isNull) := by
      simp only [Members.optional, Members.withDefault, hdataAt]
      cases e.data with
      | none => rfl
      | some d => exact nullable_any d
    simp only [Members.required, hcodeAt, hmessageAt, hint, hdata]
    rfl
  · intro entry hentry
    simp only [entries, List.mem_append, List.mem_cons, List.not_mem_nil, or_false,
      Option.mem_toList, Option.map_eq_some_iff] at hentry
    rcases hentry with (rfl | rfl) | ⟨d, -, rfl⟩
    · show (Decoder.int64 (.int e.code)).map _ = _
      rw [hint]
      rfl
    · rfl
    · show (Decoder.nullable Decoder.any d).map _ = _
      rw [nullable_any]
      rfl

end ResponseError

namespace Message

theorem classify_ofRequest (id : Nat) (method : String) (params : Option Json) :
    classify (ofRequest id method params) = some (.request (.nat id) method params) := by
  have hget (k : String) : (ofRequest id method params).get? k =
      ([version, ("id", .nat id), ("method", .str method)] ++
        paramsEntry params).reverse.lookup k := Json.get?_object _ k
  unfold classify
  rw [hget, hget, hget]
  cases params <;> simp [paramsEntry, version, List.lookup_cons, Json.str?]

theorem classify_ofNotification (method : String) (params : Option Json) :
    classify (ofNotification method params) = some (.notification method params) := by
  have hget (k : String) : (ofNotification method params).get? k =
      ([version, ("method", .str method)] ++ paramsEntry params).reverse.lookup k :=
    Json.get?_object _ k
  unfold classify
  rw [hget, hget, hget]
  cases params <;> simp [paramsEntry, version, List.lookup_cons, Json.str?]

section Response

variable {frame : Json}

/-- A frame with an identifier is no notification. -/
theorem classify_ne_notification {id : Json} (h : frame.get? "id" = some id)
    (method : String) (params : Option Json) :
    classify frame ≠ some (.notification method params) := by
  rw [classify, h]
  cases (frame.get? "method").bind Json.str? with
  | none =>
    simp only [ne_eq]
    cases id.nat? with
    | none => exact nofun
    | some n =>
      cases outcome? frame with
      | none => exact nofun
      | some outcome => exact nofun
  | some m => exact nofun

theorem classify_of_noMethod {id : Nat} (hid : frame.get? "id" = some (.nat id))
    (hmethod : frame.get? "method" = none) :
    classify frame = (outcome? frame).map (.response id) := by
  unfold classify
  rw [hid, hmethod]
  simp only [Option.bind_none, Json.nat?_nat, Option.bind_eq_bind, Option.bind_some]
  cases outcome? frame <;> rfl

variable (id result : Json) (e : ResponseError)

/-- The members of a response whose outcome stands under `key`. -/
theorem get?_response (key k : String) (value : Json) :
    (Json.object [version, ("id", id), (key, value)]).get? k =
      if k = key then some value
      else if k = "id" then some id
      else if k = "jsonrpc" then some (.str "2.0") else none := by
  rw [Json.get?_object]
  simp [version, Table.lookup_cons]

theorem id_ofResult : (ofResult id result).get? "id" = some id :=
  get?_response id "result" "id" result

theorem method_ofResult : (ofResult id result).get? "method" = none :=
  get?_response id "result" "method" result

theorem outcome_ofResult : outcome? (ofResult id result) = some (.ok result) := by
  have herror : (ofResult id result).get? "error" = none := get?_response id "result" "error" result
  have hresult : (ofResult id result).get? "result" = some result :=
    get?_response id "result" "result" result
  rw [outcome?, herror, hresult]

theorem id_ofError : (ofError id e).get? "id" = some id :=
  get?_response id "error" "id" e.toJson

theorem method_ofError : (ofError id e).get? "method" = none :=
  get?_response id "error" "method" e.toJson

theorem outcome_ofError : outcome? (ofError id e) = some (.error (responseError e.toJson)) := by
  have herror : (ofError id e).get? "error" = some e.toJson :=
    get?_response id "error" "error" e.toJson
  rw [outcome?, herror]

end Response

theorem classify_ofResult (id : Nat) (result : Json) :
    classify (ofResult (.nat id) result) = some (.response id (.ok result)) := by
  rw [classify_of_noMethod (id_ofResult _ _) (method_ofResult _ _), outcome_ofResult]
  rfl

theorem classify_ofError (id : Nat) {e : ResponseError}
    (hcode : -9223372036854775808 ≤ e.code ∧ e.code ≤ 9223372036854775807) :
    classify (ofError (.nat id) e) = some (.response id (.error e.withoutNull)) := by
  have hread : responseError e.toJson = e.withoutNull := by
    rw [responseError, ResponseError.decode_toJson hcode]
  rw [classify_of_noMethod (id_ofError _ _) (method_ofError _ _), outcome_ofError, hread]
  rfl

/-- Telling messages apart undoes building them, but for data of an error that are null. -/
theorem classify_built (id : UInt64) (method : String) (params : Option Json) (result : Json)
    (code : Int64) (message : String) (data : Option Json) :
    classify (ofRequest id.toNat method params) =
      some (.request (.nat id.toNat) method params) ∧
    classify (ofNotification method params) = some (.notification method params) ∧
    classify (ofResult (.nat id.toNat) result) = some (.response id.toNat (.ok result)) ∧
    classify (ofError (.nat id.toNat) ⟨code.toInt, message, data⟩) =
      some (.response id.toNat (.error ⟨code.toInt, message, data.filter fun d => !d.isNull⟩)) := by
  have hcode : -9223372036854775808 ≤ code.toInt ∧ code.toInt ≤ 9223372036854775807 := by
    have hlow := code.le_toInt
    have hhigh := code.toInt_lt
    omega
  exact ⟨classify_ofRequest _ _ _, classify_ofNotification _ _, classify_ofResult _ _,
    classify_ofError _ hcode⟩

end Message

end LspClient
