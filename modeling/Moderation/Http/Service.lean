import Moderation.Backend
import Moderation.EventStream
import Moderation.Http.Identity
import Moderation.Http.MediaType
import Moderation.Http.Target
import Moderation.Wire.Result

/-!
# The service

The queue over HTTP. A request is first understood as a call, or rejected before it touches
anything. The one call is then made, and what it has to tell goes to every open event stream, in
the order of the calls.
-/

namespace Moderation.Http

/-- Why a request is not understood. -/
inductive Rejection where
  | notFound
  | methodNotAllowed
  | identity (fault : Identity.Fault)
  /-- A part of the path is not what it has to be. -/
  | badPath
  | badQuery
  | versionMissing
  /-- The body is longer than the service reads. -/
  | tooLong
  | invalidBody (fault : DecodeFault)
  /-- The body is not declared as JSON. -/
  | unsupportedType
  /-- The body of a claim cannot be read. -/
  | unreadableClaim (fault : DecodeFault)

namespace Rejection

def errorBody (message kind : String) (more : List (String × Json)) : Json :=
  .object (("error", .string message) :: ("error_type", .string kind) :: more)

/-- A response to a request that says something wrong. -/
def badRequest (message : String) : Response :=
  .ofJson 400 (errorBody message "invalid" [])

def detail : DecodeFault → String
  | .malformed => "the text is malformed"
  | .mismatched => "the value has another form"

def response : Rejection → Response
  | notFound => .empty 404
  | methodNotAllowed => .empty 405
  | identity fault => badRequest fault.message
  | badPath => ⟨400, some "text/plain; charset=utf-8", "invalid path", none⟩
  | badQuery => ⟨400, some "text/plain; charset=utf-8", "invalid query", none⟩
  | versionMissing => badRequest "version query parameter is required"
  | tooLong =>
    ⟨413, some "text/plain; charset=utf-8",
      "Failed to buffer the request body: length limit exceeded", none⟩
  | invalidBody fault => badRequest ("invalid body: " ++ detail fault)
  | unsupportedType =>
    ⟨415, some "text/plain; charset=utf-8", "the body has to be JSON", none⟩
  | unreadableClaim .malformed => ⟨400, some "text/plain; charset=utf-8", "invalid body", none⟩
  | unreadableClaim .mismatched => ⟨422, some "text/plain; charset=utf-8", "invalid body", none⟩

end Rejection

namespace Body

/-- The greatest number of bytes in a body that is read. -/
def limit : Nat := 2097152

/-- Whether a byte is a blank. -/
def isBlank (b : UInt8) : Bool := b == 32 || b == 9 || b == 10 || b == 12 || b == 13

/-- The value of a body as a decoder reads it, up to the first byte that is at fault. -/
def decode {α : Type} (decoder : Decoder α) (body : List UInt8) : Except DecodeFault α :=
  Json.decode decoder (String.ofList (Utf8.decodeSound body))

/-- The object in a body that may be blank. -/
def object (body : List UInt8) : Except DecodeFault Fields :=
  if body.all isBlank then .ok ∅ else decode Decoder.fields body

/-- The body of an edit. -/
inductive EditKey where
  | updates
deriving DecidableEq

abbrev edit : Record where
  Key := EditKey
  keys := [.updates]
  name := fun _ ↦ "reviewable"
  Value := fun _ ↦ Fields
  read := fun _ ↦ Decoder.fields

/-- The updates in a body that may be empty. -/
def updates (body : List UInt8) : Except DecodeFault Fields :=
  if body.isEmpty then .ok ∅
  else decode (fun levels d ↦ do pure (((← edit.decode levels d) .updates).getD ∅)) body

/-- The body of a claim. -/
inductive ClaimKey where
  | topic
  | automatic
deriving DecidableEq

abbrev claim : Record where
  Key := ClaimKey
  keys := [.topic, .automatic]
  name
    | .topic => "topic_id"
    | .automatic => "automatic"
  Value
    | .topic => TopicId
    | .automatic => Bool
  read
    | .topic => Decoder.topicId
    | .automatic => Decoder.bool

/-- The topic in the body of a claim, and whether the claim is automatic. -/
def claimed (body : List UInt8) : Except DecodeFault (TopicId × Bool) :=
  decode
    (fun levels d ↦ do
      let draft ← claim.decode levels d
      let topic ← DecodeFault.require (draft .topic)
      pure (topic, (draft .automatic).getD false)) body

end Body

/-! ## Calls -/

/-- What a request asks for: something of the service itself, or an answer of the queue to an
actor. Whoever only reads is nobody in particular. -/
inductive Call where
  | health
  | events
  | serve (actor : User) (request : Moderation.Request)

/-- The places of the service, with the parts of the path that vary. -/
inductive Route where
  | health
  | events
  | list
  | reviewable (id : List Char)
  | perform (id action : List Char)
  | claims
  | claim (topic : List Char)

namespace Route

def ofSegments? (segments : List (List Char)) : Option Route :=
  match segments with
  | [place] =>
    if place = "health".toList then some .health
    else if place = "events".toList then some .events
    else if place = "review".toList then some .list
    else if place = "reviewable_claimed_topics".toList then some .claims
    else none
  | [place, item] =>
    if item.isEmpty then none
    else if place = "review".toList then some (.reviewable item)
    else if place = "reviewable_claimed_topics".toList then some (.claim item)
    else none
  | [place, item, verb, action] =>
    if place = "review".toList ∧ verb = "perform".toList ∧ !item.isEmpty ∧ !action.isEmpty then
      some (.perform item action)
    else none
  | _ => none

def methods : Route → List String
  | health | events | list => ["GET"]
  | reviewable _ => ["GET", "PUT"]
  | perform .. => ["PUT"]
  | claims => ["POST"]
  | claim _ => ["DELETE"]

end Route

namespace Request

/-- The actor of a request that only reads. -/
def nobody : User := default

def actor (r : Request) : Except Rejection User := (Identity.moderator r.headers).mapError .identity

/-- The number that a part of the path stands for. -/
def number (part : List Char) : Except Rejection UInt64 :=
  match Target.segmentText? part with
  | some text => (Unsigned.read text).mapError fun _ ↦ .badPath
  | none => .error .badPath

/-- The version in the query, which may stand there once. -/
def version? (target : Target) : Except Rejection (Option UInt64) :=
  match target.pairs.filter (·.1 == "version") with
  | [] => .ok none
  | [(_, text)] => ((Unsigned.read text).mapError fun _ ↦ .badQuery).map some
  | _ => .error .badQuery

def requireVersion : Option UInt64 → Except Rejection UInt64
  | some version => .ok version
  | none => .error .versionMissing

/-- The body of a request, which has to be read before anything is known about it. -/
def readBody (r : Request) : Except Rejection (List UInt8) :=
  if r.body.length ≤ Body.limit then .ok r.body else .error .tooLong

/-- The call that a request for a route is. What varies in the target is looked at before the body
is read, and what has to be there after it. -/
def callOn (r : Request) (target : Target) (method : String) : Route → Except Rejection Call
  | .health => .ok .health
  | .events => .ok .events
  | .list => .ok (.serve nobody .list)
  | .reviewable id =>
    if method = "GET" then do pure (.serve nobody (.fetch ⟨← number id⟩))
    else do
      let actor ← r.actor
      let id ← number id
      let version ← version? target
      let body ← r.readBody
      let version ← requireVersion version
      let updates ← (Body.updates body).mapError .invalidBody
      pure (.serve actor (.update ⟨id⟩ version updates))
  | .perform id action => do
    let actor ← r.actor
    let id ← number id
    match Target.segmentText? action with
    | none => throw .badPath
    | some action =>
      let version ← version? target
      let body ← r.readBody
      let version ← requireVersion version
      let data ← (Body.object body).mapError .invalidBody
      pure (.serve actor (.perform ⟨id⟩ action version data))
  | .claims => do
    let actor ← r.actor
    if MediaType.declaresJson r.headers then
      let body ← r.readBody
      let (topic, automatic) ← (Body.claimed body).mapError .unreadableClaim
      pure (.serve actor (.claim topic automatic))
    else throw .unsupportedType
  | .claim topic => do
    let actor ← r.actor
    let topic ← number topic
    let body ← r.readBody
    let fields ← (Body.object body).mapError .invalidBody
    let automatic := (fields["automatic"]?.bind Json.asBool?).getD false
    pure (.serve actor (.release ⟨topic⟩ automatic))

/-- The call that a request is. Where a route answers a request for the whole it answers one for
the head. -/
def call (r : Request) : Except Rejection Call :=
  let target := Target.ofString r.target
  match Route.ofSegments? target.segments with
  | none => .error .notFound
  | some route =>
    let method := if r.method = "HEAD" then "GET" else r.method
    if route.methods.contains method then r.callOn target method route
    else .error .methodNotAllowed

end Request

structure Service where
  queue : Queue
  /-- The number of events that wait for one stream. -/
  capacity : Nat
  /-- The event streams that were opened, with what waits for each. -/
  streams : List (Mailbox Event)

namespace Service

def defaultCapacity : Nat := 256

def create (queue : Queue) (capacity : Nat) : Service := ⟨queue, capacity, []⟩

/-- One event stream more, with its number. -/
def openStream (s : Service) : Service × Nat :=
  ({ s with streams := s.streams ++ [.create s.capacity] }, s.streams.length)

def broadcast (s : Service) (events : List Event) : Service :=
  { s with streams := s.streams.map (·.postAll events) }

/-- What waits for a stream, which is then empty. -/
def readStream (s : Service) (number : Nat) : List (Mailbox.Delivery Event) × Service :=
  (((s.streams[number]?).map (·.deliveries)).getD [],
    { s with streams := s.streams.modify number (·.emptied) })

/-- The response to a refused call. A version conflict carries the reviewable as it is. -/
def refusalResponse (q : Queue) (refusal : Refusal) : Response :=
  let current := match refusal with
    | .versionConflict id _ _ => match q.items[id]? with
      | some r => [("reviewable", r.toJson)]
      | none => []
    | _ => []
  .ofJson refusal.status (Rejection.errorBody refusal.message refusal.kind current)

def healthBody (q : Queue) : Json :=
  .object [("status", .string "ok"), ("claim_mode", q.mode.toJson),
    ("pending", .ofUInt64 q.pendingCount)]

def listBody (rs : List Reviewable) : Json :=
  .object [("reviewables", .array (rs.map Reviewable.toJson)),
    ("reviewable_count", .ofUInt64 (UInt64.ofNat rs.length))]

def reviewableBody (r : Reviewable) : Json := .object [("reviewable", r.toJson)]

def claimBody (claim : Claim) : Json := .object [("claimed_by", claim.toJson)]

def releaseBody : Json := .object [("success", .string "OK")]

/-- The response that carries the answer to a request. The answer to an action is written as it is,
and everything else as a value. -/
def responseTo : (request : Moderation.Request) → request.Answer → Response
  | .perform .., result => .ofText 200 result.toEnvelope.text
  | .claim .., claim => .ofJson 200 (claimBody claim)
  | .release .., () => .ofJson 200 releaseBody
  | .fetch _, r => .ofJson 200 (reviewableBody r)
  | .list, rs => .ofJson 200 (listBody rs)
  | .update .., r => .ofJson 200 (reviewableBody r)

/-- Makes a call. What was granted is told to everybody. -/
def answer (s : Service) : Call → Service × Response
  | .health => (s, .ofJson 200 (healthBody s.queue))
  | .events =>
    let (s, number) := s.openStream
    (s, ⟨200, some eventStreamType, "", some number⟩)
  | .serve actor request => match s.queue.serve actor request with
    | .ok granted =>
      ({ s with queue := granted.queue }.broadcast granted.events,
        responseTo request granted.answer)
    | .error refusal => (s, refusalResponse s.queue refusal)

/-- Answers a request. A request for the options is answered for any target, and one for the head
opens no stream. -/
def handle (s : Service) (r : Request) : Service × Response :=
  if r.method = "OPTIONS" then (s, .empty 200)
  else match r.call with
    | .error rejection =>
      (s, if r.method = "HEAD" then rejection.response.head else rejection.response)
    | .ok call =>
      let (after, response) := s.answer call
      if r.method = "HEAD" then (s, response.head) else (after, response)

end Service

end Moderation.Http
