import Moderation.Document.Record
import Moderation.Reviewable

/-!
# Reviewables on the wire

The written form of users, claims, actions and reviewables, and its reading. Attributes are
written in the order of their declaration and the free-form fields after them, so that a field
with the name of an attribute stands last.
-/

namespace Moderation

namespace Decoder

def reviewableId : Decoder ReviewableId := fun levels d ↦ (uint64 levels d).map ReviewableId.mk

def topicId : Decoder TopicId := fun levels d ↦ (uint64 levels d).map TopicId.mk

def userId : Decoder UserId := fun levels d ↦ (uint64 levels d).map UserId.mk

def status : Decoder Status := choice Status.ofName?

def claimMode : Decoder ClaimMode := choice ClaimMode.ofName?

def time : Decoder Time := fun levels d ↦ do
  match Time.ofText? (← string levels d) with
  | some time => .ok time
  | none => .error .mismatched

end Decoder

def ReviewableId.toJson (id : ReviewableId) : Json := .ofUInt64 id.value

def TopicId.toJson (topic : TopicId) : Json := .ofUInt64 topic.value

def Status.toJson (status : Status) : Json := .string status.name

def ClaimMode.toJson (mode : ClaimMode) : Json := .string mode.name

namespace User

inductive Key where
  | id
  | username
deriving DecidableEq

abbrev record : Record where
  Key := Key
  keys := [.id, .username]
  name
    | .id => "id"
    | .username => "username"
  Value
    | .id => UserId
    | .username => String
  read
    | .id => Decoder.userId
    | .username => Decoder.string

def ofDraft (draft : record.Draft) : Except DecodeFault User := do
  let id ← DecodeFault.require (draft .id)
  let username ← DecodeFault.require (draft .username)
  pure { id, username }

def decode : Decoder User := fun levels d ↦ do ofDraft (← record.decode levels d)

def toJson (user : User) : Json :=
  .object [("id", .ofUInt64 user.id.value), ("username", .string user.username)]

end User

namespace Claim

inductive Key where
  | user
  | automatic
deriving DecidableEq

abbrev record : Record where
  Key := Key
  keys := [.user, .automatic]
  name
    | .user => "user"
    | .automatic => "automatic"
  Value
    | .user => User
    | .automatic => Bool
  read
    | .user => User.decode
    | .automatic => Decoder.bool

def ofDraft (draft : record.Draft) : Except DecodeFault Claim := do
  let user ← DecodeFault.require (draft .user)
  pure { user, automatic := (draft .automatic).getD false }

def decode : Decoder Claim := fun levels d ↦ do ofDraft (← record.decode levels d)

def toJson (claim : Claim) : Json :=
  .object [("user", claim.user.toJson), ("automatic", .bool claim.automatic)]

end Claim

namespace Action

inductive Key where
  | name
  | label
  | workflow
  | confirmation
  | needsReason
  | completion
deriving DecidableEq

abbrev record : Record where
  Key := Key
  keys := [.name, .label, .workflow, .confirmation, .needsReason, .completion]
  name
    | .name => "server_action"
    | .label => "label"
    | .workflow => "client_action"
    | .confirmation => "confirm_message"
    | .needsReason => "require_reject_reason"
    | .completion => "completed_message"
  Value
    | .name => String
    | .label => Option String
    | .workflow => Option String
    | .confirmation => Option String
    | .needsReason => Bool
    | .completion => Option String
  read
    | .name => Decoder.string
    | .label => Decoder.optional Decoder.string
    | .workflow => Decoder.optional Decoder.string
    | .confirmation => Decoder.optional Decoder.string
    | .needsReason => Decoder.bool
    | .completion => Decoder.optional Decoder.string

def ofDraft (draft : record.Draft) : Except DecodeFault Action := do
  let name ← DecodeFault.require (draft .name)
  pure {
    name
    label := (draft .label).join
    workflow := (draft .workflow).join
    confirmation := (draft .confirmation).join
    needsReason := (draft .needsReason).getD false
    completion := (draft .completion).join }

def decode : Decoder Action := fun levels d ↦ do ofDraft (← record.decode levels d)

def toJson (action : Action) : Json :=
  .object [
    ("server_action", .string action.name),
    ("label", .ofOption .string action.label),
    ("client_action", .ofOption .string action.workflow),
    ("confirm_message", .ofOption .string action.confirmation),
    ("require_reject_reason", .bool action.needsReason),
    ("completed_message", .ofOption .string action.completion)]

end Action

namespace Reviewable

inductive Key where
  | id
  | kind
  | status
  | version
  | topic
  | claim
  | author
  | post
  | raw
  | sendEmail
  | rejectReason
  | fromFlag
  | category
  | createdAt
  | actions
deriving DecidableEq

namespace Key

def all : List Key :=
  [.id, .kind, .status, .version, .topic, .claim, .author, .post, .raw, .sendEmail,
    .rejectReason, .fromFlag, .category, .createdAt, .actions]

def name : Key → String
  | .id => "id"
  | .kind => "type"
  | .status => "status"
  | .version => "version"
  | .topic => "topic_id"
  | .claim => "claimed_by"
  | .author => "target_created_by"
  | .post => "post_id"
  | .raw => "raw"
  | .sendEmail => "send_email"
  | .rejectReason => "reject_reason"
  | .fromFlag => "created_from_flag"
  | .category => "category_id"
  | .createdAt => "created_at"
  | .actions => "actions"

end Key

abbrev record : Record where
  Key := Key
  keys := Key.all
  name := Key.name
  Value
    | .id => ReviewableId
    | .kind => String
    | .status => Status
    | .version => UInt64
    | .topic => Option TopicId
    | .claim => Option Claim
    | .author => Option User
    | .post => Option UInt64
    | .raw => Option String
    | .sendEmail => Option Bool
    | .rejectReason => Option String
    | .fromFlag => Bool
    | .category => Option UInt64
    | .createdAt => Time
    | .actions => List Action
  read
    | .id => Decoder.reviewableId
    | .kind => Decoder.string
    | .status => Decoder.status
    | .version => Decoder.uint64
    | .topic => Decoder.optional Decoder.topicId
    | .claim => Decoder.optional Claim.decode
    | .author => Decoder.optional User.decode
    | .post => Decoder.optional Decoder.uint64
    | .raw => Decoder.optional Decoder.string
    | .sendEmail => Decoder.optional Decoder.bool
    | .rejectReason => Decoder.optional Decoder.string
    | .fromFlag => Decoder.bool
    | .category => Decoder.optional Decoder.uint64
    | .createdAt => Decoder.time
    | .actions => Decoder.list Action.decode

/-- A reviewable from what was read; one without a time was created `now`. -/
def ofDraft (now : Time) (draft : record.Draft) (fields : List (String × Json)) :
    Except DecodeFault Reviewable := do
  let id ← DecodeFault.require (draft .id)
  let kind ← DecodeFault.require (draft .kind)
  pure {
    id
    kind
    status := (draft .status).getD .pending
    version := (draft .version).getD 0
    topic := (draft .topic).join
    claim := (draft .claim).join
    author := (draft .author).join
    post := (draft .post).join
    raw := (draft .raw).join
    sendEmail := (draft .sendEmail).join
    rejectReason := (draft .rejectReason).join
    fromFlag := (draft .fromFlag).getD false
    category := (draft .category).join
    createdAt := (draft .createdAt).getD now
    actions := (draft .actions).getD []
    fields := Fields.ofMembers fields }

def decode (now : Time) : Decoder Reviewable := fun levels d ↦ do
  let (draft, fields) ← record.decodeOpen levels d
  ofDraft now draft fields

/-- The attributes in the order of their declaration. -/
def attributes (r : Reviewable) : List (String × Json) :=
  [("id", r.id.toJson),
    ("type", .string r.kind),
    ("status", r.status.toJson),
    ("version", .ofUInt64 r.version),
    ("topic_id", .ofOption TopicId.toJson r.topic),
    ("claimed_by", .ofOption Claim.toJson r.claim),
    ("target_created_by", .ofOption User.toJson r.author),
    ("post_id", .ofOption .ofUInt64 r.post),
    ("raw", .ofOption .string r.raw),
    ("send_email", .ofOption .bool r.sendEmail),
    ("reject_reason", .ofOption .string r.rejectReason),
    ("created_from_flag", .bool r.fromFlag),
    ("category_id", .ofOption .ofUInt64 r.category),
    ("created_at", .string r.createdAt.text),
    ("actions", .array (r.actions.map Action.toJson))]

/-- The written form; a field with the name of an attribute stands beside it. -/
def toJson (r : Reviewable) : Json := .object (r.attributes ++ r.fields.members)

end Reviewable

end Moderation
