import Moderation.Http.Address
import Moderation.Http.Service
import Moderation.Session.Live

/-!
# The client

Requests of a session to a service, made for one moderator. A response that grants the request
carries the answer, and any other an error, as far as its body can be read.
-/

namespace Moderation.Http

structure Client where
  actor : User
  /-- The path that the service is under. -/
  root : String

namespace Client

/-- A client for the service under a path, which may end in slashes. -/
def create (actor : User) (root : String) : Client :=
  ⟨actor, String.ofList (root.toList.reverse.dropWhile (· == '/')).reverse⟩

def methodOf : Moderation.Request → String
  | .perform .. | .update .. => "PUT"
  | .claim .. => "POST"
  | .release .. => "DELETE"
  | .fetch _ | .list => "GET"

def pathOf : Moderation.Request → String
  | .perform id action _ _ => "/review/" ++ toString id ++ "/perform/" ++ action
  | .claim .. => "/reviewable_claimed_topics"
  | .release topic _ => "/reviewable_claimed_topics/" ++ toString topic
  | .fetch id => "/review/" ++ toString id
  | .list => "/review"
  | .update id _ _ => "/review/" ++ toString id

def versionOf? : Moderation.Request → Option UInt64
  | .perform _ _ version _ => some version
  | .update _ version _ => some version
  | _ => none

def bodyOf? : Moderation.Request → Option Json
  | .perform _ _ _ data => some (.ofFields data)
  | .claim topic automatic =>
    some (.object [("automatic", .bool automatic), ("topic_id", topic.toJson)])
  | .release _ automatic => some (.object [("automatic", .bool automatic)])
  | .update _ _ updates => some (.object [("reviewable", .ofFields updates)])
  | _ => none

/-- The target under the client's path. -/
def target (c : Client) (path : String) (version : Option UInt64) : String :=
  let versions := version.toList.map fun v ↦ "version=".toList ++ (toString v).toList
  String.ofList (Address.target (c.root ++ path).toList versions)

/-- Whether the identity of the client can be put into headers. -/
def hasHeaders (c : Client) : Bool := (Utf8.encode c.actor.username).all Headers.isAllowed

/-- The HTTP request for a request of the session. -/
def encode (c : Client) (request : Moderation.Request) : Request :=
  let body := match bodyOf? request with
    | some value => ([("content-type", Utf8.encode jsonType)], Utf8.encode value.text)
    | none => ([], [])
  { method := methodOf request
    target := c.target (pathOf request) (versionOf? request)
    headers := Identity.headers c.actor ++ body.1
    body := body.2 }

/-- The request for the event stream. -/
def eventsRequest (c : Client) : Request where
  method := "GET"
  target := c.target "/events" none
  headers := Identity.headers c.actor ++ [("accept", Utf8.encode eventStreamType)]
  body := []

/-- A record with one member, which has to be there. -/
inductive OnlyKey where
  | only
deriving DecidableEq

abbrev envelope {α : Type} (name : String) (decode : Decoder α) : Record where
  Key := OnlyKey
  keys := [.only]
  name := fun _ ↦ name
  Value := fun _ ↦ α
  read := fun _ ↦ decode

def unwrap {α : Type} (name : String) (decode : Decoder α) : Decoder α := fun levels d ↦ do
  DecodeFault.require ((← (envelope name decode).decode levels d) .only)

/-- A record of which nothing is read. -/
abbrev acknowledgement : Record where
  Key := Empty
  keys := []
  name := nofun
  Value := nofun
  read := nofun

/-- How the answer to a request is read. -/
def answerDecoder (now : Time) : (request : Moderation.Request) → Decoder request.Answer
  | .perform .. => PerformResult.decodeEnvelope now
  | .claim .. => unwrap "claimed_by" Claim.decode
  | .release .. => fun levels d ↦ (acknowledgement.decode levels d).map fun _ ↦ ()
  | .fetch _ => unwrap "reviewable" (Reviewable.decode now)
  | .list => unwrap "reviewables" (Decoder.list (Reviewable.decode now))
  | .update .. => unwrap "reviewable" (Reviewable.decode now)

inductive ErrorKey where
  | error
  | kind
  | reviewable
deriving DecidableEq

abbrev errorBody (now : Time) : Record where
  Key := ErrorKey
  keys := [.error, .kind, .reviewable]
  name
    | .error => "error"
    | .kind => "error_type"
    | .reviewable => "reviewable"
  Value
    | .error => Option String
    | .kind => Option String
    | .reviewable => Option Reviewable
  read
    | .error => Decoder.optional Decoder.string
    | .kind => Decoder.optional Decoder.string
    | .reviewable => Decoder.optional (Reviewable.decode now)

/-- The fault that a response without success tells of. A body that cannot be read says nothing. -/
def faultOf (now : Time) (response : Response) : BackendFault :=
  let draft := ((Json.decode (errorBody now).decode response.body).toOption).getD
    (errorBody now).blank
  let message := (draft .error).join.getD
    ("server responded with status " ++ toString response.status)
  match (draft .kind).join with
  | some "version_conflict" => .versionConflict message (draft .reviewable).join
  | some "claim_conflict" => .claimConflict message
  | kind => .rejected response.status (kind.getD "error") message

/-- What a response is to the session. -/
def decode (now : Time) (request : Moderation.Request) (response : Response) : request.Reply :=
  if response.isSuccess then
    match Json.decode (answerDecoder now request) response.body with
    | .ok answer => .ok answer
    | .error _ => .error (.undecodable "error decoding response body")
  else .error (faultOf now response)

/-- How requests reach a service, which may be out of reach. -/
abbrev Link := Request → Except String Response

/-- Where nobody answers. -/
def Link.unreachable : Link := fun _ ↦ .error "error sending request"

/-- Sends a request over a link. -/
def send (c : Client) (link : Link) (now : Time) (request : Moderation.Request) : request.Reply :=
  if c.hasHeaders then
    match link (c.encode request) with
    | .ok response => decode now request response
    | .error detail => .error (.transport detail)
  else .error (.transport "builder error")

/-- Sends a request to a service at hand. -/
def exchange (c : Client) (s : Service) (now : Time) (request : Moderation.Request) :
    request.Reply × Service :=
  if c.hasHeaders then
    let (s, response) := s.handle (c.encode request)
    (decode now request response, s)
  else (.error (.transport "builder error"), s)

/-- Opens the event stream. -/
def connect (c : Client) (link : Link) (now : Time) : Except BackendFault Unit :=
  if c.hasHeaders then
    match link c.eventsRequest with
    | .ok response => if response.isSuccess then .ok () else .error (faultOf now response)
    | .error detail => .error (.transport detail)
  else .error (.transport "builder error")

/-- The events in the chunks of a stream, for a subscriber. -/
def follow (live : Live) (chunks : List (List UInt8)) : Live :=
  let (frames, _) := EventStream.Decoder.empty.pushAll chunks
  (frames.filterMap EventStream.Frame.event?).foldl Live.publish live

end Client

end Moderation.Http
