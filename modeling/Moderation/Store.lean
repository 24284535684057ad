import Moderation.Session.Fault

/-!
# The store of a session

A session's own copy of the queue, with the numbers that the backend reported and a marker on
everything that a request is under way for. Every operation lists what it changed, so that whoever
listens can follow.
-/

namespace Moderation

/-- The numbers that the backend reports. -/
structure Counts where
  reviewables : Option UInt64
  unseen : Option UInt64
deriving DecidableEq, Repr, Inhabited

/-- What listeners are told. -/
inductive StoreChange where
  | updated (id : ReviewableId)
  | removed (ids : List ReviewableId)
  | counts (counts : Counts)
  | reloaded
deriving DecidableEq, Repr

namespace Store

structure Entry where
  reviewable : Reviewable
  /-- Whether a request is under way for it. -/
  updating : Bool

abbrev Entries := Std.ExtTreeMap ReviewableId Entry

end Store

structure Store where
  entries : Store.Entries
  counts : Counts

namespace Store

/-- The store after an operation, with what changed and what the operation answers. -/
structure Revision (α : Type) where
  store : Store
  changes : List StoreChange
  answer : α

def empty : Store := ⟨∅, default⟩

instance : Inhabited Store := ⟨empty⟩

def get? (s : Store) (id : ReviewableId) : Option Reviewable := s.entries[id]?.map (·.reviewable)

def contains (s : Store) (id : ReviewableId) : Bool := s.entries.contains id

/-- The reviewables in the order of their numbers. -/
def snapshot (s : Store) : List Reviewable := s.entries.toList.map (·.2.reviewable)

def ids (s : Store) : List ReviewableId := s.entries.keys

def size (s : Store) : Nat := s.entries.size

def isEmpty (s : Store) : Bool := s.entries.isEmpty

def isUpdating (s : Store) (id : ReviewableId) : Bool := s.entries[id]?.any (·.updating)

/-- The entry of a reviewable, which keeps the marker that its number has. -/
def entry (s : Store) (r : Reviewable) : Entry := ⟨r, s.isUpdating r.id⟩

/-- Takes a reviewable in, or a new copy of one. -/
def insert (s : Store) (r : Reviewable) : Revision Unit :=
  ⟨{ s with entries := s.entries.insert r.id (s.entry r) }, [.updated r.id], ()⟩

/-- Replaces everything; the markers stay on what stays. -/
def replaceAll (s : Store) (rs : List Reviewable) : Revision Unit :=
  ⟨{ s with entries := .ofList (rs.map fun r ↦ (r.id, s.entry r)) }, [.reloaded], ()⟩

/-- Takes a newer copy of something that the store has; the answer is whether it differs. -/
def refresh (s : Store) (r : Reviewable) : Revision Bool :=
  match s.entries[r.id]? with
  | some old =>
    if old.reviewable.same r then ⟨s, [], false⟩
    else
      ⟨{ s with entries := s.entries.insert r.id { old with reviewable := r } }, [.updated r.id],
        true⟩
  | none => ⟨s, [], false⟩

/-- The entries without some, and which of those there were. -/
def eraseAll (entries : Entries) : List ReviewableId → Entries × List ReviewableId
  | [] => (entries, [])
  | id :: rest =>
    if entries.contains id then
      let (left, erased) := eraseAll (entries.erase id) rest
      (left, id :: erased)
    else eraseAll entries rest

/-- Drops reviewables; the answer is the ones that were there. -/
def remove (s : Store) (ids : List ReviewableId) : Revision (List ReviewableId) :=
  let (entries, removed) := eraseAll s.entries ids
  ⟨{ s with entries }, if removed.isEmpty then [] else [.removed removed], removed⟩

/-- Sets the claim of one reviewable; the answer is whether it was another. -/
def setClaim (s : Store) (id : ReviewableId) (claim : Option Claim) : Revision Bool :=
  match s.entries[id]? with
  | some old =>
    if old.reviewable.claim = claim then ⟨s, [], false⟩
    else
      ⟨{ s with
        entries := s.entries.insert id
          { old with reviewable := { old.reviewable with claim } } }, [.updated id], true⟩
  | none => ⟨s, [], false⟩

/-- The reviewables of a topic whose claim is not the given one. -/
def claimedElse (s : Store) (topic : TopicId) (claim : Option Claim) : List ReviewableId :=
  (s.entries.filter fun _ e ↦ e.reviewable.topic = some topic ∧ e.reviewable.claim ≠ claim).keys

/-- Sets the claim of everything in a topic; the answer is how many had another. -/
def setTopicClaim (s : Store) (topic : TopicId) (claim : Option Claim) : Revision Nat :=
  let changed := s.claimedElse topic claim
  ⟨{ s with
    entries := s.entries.map fun _ e ↦
      if e.reviewable.topic = some topic then
        { e with reviewable := { e.reviewable with claim } }
      else e }, changed.map .updated, changed.length⟩

/-- Takes over the numbers that are given; the answer is whether one is new. -/
def applyCounts (s : Store) (reviewables unseen : Option UInt64) : Revision Bool :=
  let counts : Counts := ⟨reviewables.or s.counts.reviewables, unseen.or s.counts.unseen⟩
  if counts = s.counts then ⟨s, [], false⟩ else ⟨{ s with counts }, [.counts counts], true⟩

/-- Marks that a request is under way. -/
def beginUpdate (s : Store) (id : ReviewableId) : Except SessionFault Store :=
  match s.entries[id]? with
  | none => .error (.unknownReviewable id)
  | some e =>
    if e.updating then .error (.inFlight id)
    else .ok { s with entries := s.entries.insert id { e with updating := true } }

/-- Takes the marker off, if the reviewable is still there. -/
def endUpdate (s : Store) (id : ReviewableId) : Store :=
  { s with entries := s.entries.modify id fun e ↦ { e with updating := false } }

end Store

end Moderation
