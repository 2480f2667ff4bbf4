import NameRecovery.Json.Encode
import NameRecovery.Pipeline

/-!
# Requests

A request is a JSON object with a program under `code` and any value under `id`.
The reply repeats the value and holds either the program with its new names or
what is wrong.  Requests come one per line, and so go the replies; lines that are
blank are passed over.
-/

namespace NameRecovery

/-- The reply to a request. -/
structure Reply where
  /-- The result, or what is wrong. -/
  outcome : Except String String
  /-- The value the request has under `id`. -/
  id : Json

/-- The fields of a reply. -/
def Reply.fields (reply : Reply) : Table Json :=
  match reply.outcome with
  | .ok result => [("success", .bool true), ("result", .text result), ("id", reply.id)]
  | .error message => [("success", .bool false), ("error", .text message), ("id", reply.id)]

/-- The line of a reply. -/
def Reply.line (reply : Reply) : String :=
  (Json.object reply.fields).compact ++ "\n"

namespace Requests

/-- The program in a request. -/
def code : Json → Except String String
  | .object fields =>
    match fields.lookup "code" with
    | some (.text code) => .ok code
    | _ => .error "request field 'code' must be a string"
  | _ => .error "request must be a JSON object"

/-- The result of a request, and the remarks on the way to it. -/
def result (config : Config) (request : Json) : Except String String × List Remark :=
  match code request with
  | .error message => (.error message, [])
  | .ok code =>
    match runOn code config [] [] with
    | (.ok _, ctx) => (.ok ctx.output, ctx.trace)
    | (.error failure, ctx) => (.error failure.message, ctx.trace)

/-- The reply to a request, and the remarks on the way to it. -/
def handle (config : Config) (request : Json) : Reply × List Remark :=
  let id := (request.field? "id").getD .null
  match result config request with
  | (.ok output, remarks) => (⟨.ok output, id⟩, remarks)
  | (.error message, remarks) =>
    (⟨.error message, id⟩,
      remarks ++ [⟨.requests, "request " ++ Display.json id ++ " failed"⟩])

/-- The reply to a line, unless it is blank, and the remarks on the way to it.  An
integer with too many digits is trouble. -/
def answer? (config : Config) (line : String) : Option (Except Trouble (Reply × List Remark)) :=
  let text := Text.stripped line
  if text = "" then none
  else
    match Json.decode text with
    | .ok request => some (.ok (handle config request))
    | .error ⟨.tooManyDigits count, _, _, _⟩ => some (.error (.tooManyDigits count))
    | .error e => some (.ok (⟨.error ("invalid request: " ++ e.message), .null⟩, []))

/-- The remark at the end of all requests. -/
def closingRemark (handled : Nat) : Remark :=
  ⟨.requests, "worker handled " ++ toString handled ++ " requests"⟩

/-- What has come of a number of requests. -/
structure Session where
  /-- How many have been answered. -/
  handled : Nat := 0
  /-- The replies written so far, one per line. -/
  output : String := ""
  /-- The remarks on the way. -/
  remarks : List Remark := []

/-- Answer lines one after the other, up to one that is trouble: what has been written by then
stays written. -/
def answerLines (config : Config) (session : Session) :
    List String → Session × Except Trouble Unit
  | [] => ({ session with
      remarks := session.remarks ++ [closingRemark session.handled] }, .ok ())
  | line :: rest =>
    match answer? config line with
    | none => answerLines config session rest
    | some (.error trouble) => (session, .error trouble)
    | some (.ok answer) =>
      answerLines config {
        handled := session.handled + 1
        output := session.output ++ answer.1.line
        remarks := session.remarks ++ answer.2 } rest

/-- Answer the requests in a text: what came of them, and whether the end of the text was
reached. -/
def attend (config : Config) (input : String) : Session × Except Trouble Unit :=
  answerLines config {} ((Text.splitAtChar '\n' input.toList).map String.ofList)

/-- Answer all requests in a text. -/
def serve (config : Config) (input : String) : Except Trouble Session :=
  (attend config input).2.map fun _ => (attend config input).1

end Requests
end NameRecovery
