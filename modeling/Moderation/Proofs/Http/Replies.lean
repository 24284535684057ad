import Moderation.Proofs.Http.Client
import Moderation.Proofs.Specimen

/-!
# Replies over HTTP

A client that asks the service reads what the queue replied. The reviewables in a reply are the
queue's own, and only the values of their fields go through a text. This holds as long as edits
keep to names that no attribute has: a field that is called like an attribute is written in its
place.
-/

namespace Moderation

namespace Queue

variable {q : Queue} {actor : User} {request : Request}

theorem exists_item_of_mem_pending {r : Reviewable} (h : r ∈ q.pending) :
    ∃ id : ReviewableId, q.items[id]? = some r := by
  obtain ⟨⟨id, _⟩, hmem, rfl⟩ := List.mem_map.mp (List.mem_of_mem_filter h)
  exact ⟨id, Std.ExtTreeMap.mem_toList_iff_getElem?_eq_some.mp hmem⟩

/-- What an answer carries lies in the queue that the request leaves. -/
theorem exists_item_of_carried {granted : Granted request.Answer}
    (h : q.serve actor request = .ok granted) {r : Reviewable}
    (carried : r ∈ request.carried (.ok granted.answer)) :
    ∃ id : ReviewableId, granted.queue.items[id]? = some r := by
  cases request with
  | perform id action version data =>
    have hanswer := (perform_answer h).1
    rw [Request.carried, Option.mem_toList] at carried
    exact ⟨id, hanswer ▸ carried⟩
  | claim | release => cases carried
  | fetch id =>
    simp only [serve] at h
    cases hget : q.get id with
    | error refusal => simp [hget, Except.map] at h
    | ok found =>
      obtain rfl : _ = granted := by simpa [hget, Except.map] using h
      obtain rfl := List.mem_singleton.mp carried
      exact ⟨id, get_eq_ok_iff.mp hget⟩
  | list =>
    obtain rfl : _ = granted := Except.ok.inj h
    exact exists_item_of_mem_pending carried
  | update id version updates =>
    obtain rfl := List.mem_singleton.mp carried
    exact ⟨id, update_answer h⟩

theorem reply_of_granted {granted : Granted request.Answer}
    (h : q.serve actor request = .ok granted) :
    q.reply actor request = (.ok granted.answer, granted.queue) := by
  simp only [reply, h]

theorem reply_of_refused {refusal : Refusal} (h : q.serve actor request = .error refusal) :
    q.reply actor request = (.error (refusal.fault q), q) := by
  simp only [reply, h]

/-- What a reply carries lies in the queue that the request leaves. -/
theorem exists_item_of_reply (q : Queue) (actor : User) (request : Request) {r : Reviewable}
    (carried : r ∈ request.carried (q.reply actor request).1) :
    ∃ id : ReviewableId, (q.reply actor request).2.items[id]? = some r := by
  cases hserve : q.serve actor request with
  | ok granted =>
    rw [reply_of_granted hserve] at carried ⊢
    exact exists_item_of_carried hserve carried
  | error refusal =>
    rw [reply_of_refused hserve] at carried ⊢
    cases refusal with
    | versionConflict id expected current =>
      exact ⟨id, by cases request <;> exact Option.mem_toList.mp carried⟩
    | notFound | alreadyResolved | claimConflict | claimRequired | unknownAction =>
      cases request <;> cases carried

/-- A reply carries the queue's own reviewables, as the request leaves them. -/
theorem Keyed.carried (keyed : q.Keyed) (actor : User) (request : Request) :
    ∀ r ∈ request.carried (q.reply actor request).1,
      (q.reply actor request).2.items[r.id]? = some r := by
  intro r hr
  obtain ⟨id, hid⟩ := q.exists_item_of_reply actor request hr
  have hkeyed : (q.reply actor request).2.Keyed := by
    cases hserve : q.serve actor request with
    | ok granted =>
      rw [reply_of_granted hserve]
      exact (serve_effect hserve).keyed keyed
    | error refusal =>
      rw [reply_of_refused hserve]
      exact keyed
  rwa [hkeyed id r hid]

end Queue

namespace Http.Service

variable {q : Queue} {actor : User} {request : Moderation.Request}

theorem answer_of_granted {granted : Queue.Granted request.Answer}
    (h : q.serve actor request = .ok granted) (capacity : Nat) (streams : List (Mailbox Event)) :
    (answer ⟨q, capacity, streams⟩ (.serve actor request)).2 =
      responseTo request granted.answer := by
  simp only [answer, h]

theorem answer_of_refused {refusal : Refusal} (h : q.serve actor request = .error refusal)
    (capacity : Nat) (streams : List (Mailbox Event)) :
    (answer ⟨q, capacity, streams⟩ (.serve actor request)).2 = refusalResponse q refusal := by
  simp only [answer, h]

theorem responseTo_fetch (id : ReviewableId) (r : Reviewable) :
    responseTo (.fetch id) r = .ofText 200
      (Json.ofFields (Fields.ofMembers [("reviewable", r.toJson.normalize)])).text := rfl

/-- Answers and refusals of a legible queue are read as they are. -/
theorem decode_answer (legible : q.IsLegible)
    (op : (Queue.Operation.request actor request).IsLegible) (capacity : Nat)
    (streams : List (Mailbox Event)) (now : Time) :
    Client.decode now request (answer ⟨q, capacity, streams⟩ (.serve actor request)).2 =
      request.rereadReply (q.reply actor request).1 := by
  cases hserve : q.serve actor request with
  | ok granted =>
    rw [answer_of_granted hserve, Queue.reply_of_granted hserve]
    have hqueue : granted.queue.IsLegible := (Queue.serve_effect hserve).isLegible legible op
    refine Client.decode_responseTo (fun r hr ↦ ?_) now
    obtain ⟨id, hid⟩ := Queue.exists_item_of_carried hserve hr
    exact hqueue id r hid
  | error refusal =>
    rw [answer_of_refused hserve, Queue.reply_of_refused hserve]
    exact Client.decode_refusalResponse legible refusal now request

end Http.Service

namespace Queue

theorem isLegible_dated (id : ReviewableId) (topic : Option TopicId) (version : UInt64) :
    { Reviewable.dated id topic with version }.IsLegible fieldLevels :=
  ⟨rfl, by simp [Reviewable.dated, Reviewable.plain], by simp [Reviewable.dated, Reviewable.plain]⟩

/-- The version is not written where a field is called like it. -/
theorem normalize_toJson_of_version_field :
    { Reviewable.dated 1 none with
      version := 1
      fields := Fields.ofMembers [("version", .ofUInt64 99)] }.toJson.normalize =
    { Reviewable.dated 1 none with version := 99 }.toJson.normalize := rfl

/-- Whatever the seed and the run, a client that asks reads what the queue replies, with the values
of fields as they come back; and what the reply carries are the queue's own reviewables. It takes
that no edit uses the name of an attribute, the category's apart, and that the values of fields have
numbers of their range and lie no deeper than a reader goes. -/
theorem clients_read_own_items (mode : ClaimMode) (seed : List Reviewable) (ops : List Operation)
    (actor : User) (request : Request) (capacity : Nat) (streams : List (Mailbox Event))
    (now : Time) (seeded : ∀ r ∈ seed, r.IsLegible fieldLevels)
    (legible : ∀ op ∈ ops ++ [.request actor request], op.IsLegible) :
    let q := (ofSeed mode seed).run ops
    Http.Client.decode now request
        (Http.Service.answer ⟨q, capacity, streams⟩ (.serve actor request)).2 =
      request.rereadReply (q.reply actor request).1 ∧
    ∀ r ∈ request.carried (q.reply actor request).1,
      (q.reply actor request).2.items[r.id]? = some r := by
  intro q
  have hops : ∀ op ∈ ops, op.IsLegible := fun op hop ↦ legible op (List.mem_append_left _ hop)
  have hqueue : q.IsLegible := (isLegible_ofSeed seeded mode).run hops
  have hkeyed : q.Keyed :=
    Reachable.keyed ⟨mode, seed.map .insert ++ ops, by rw [run_append, ← ofSeed_eq_run]⟩
  exact ⟨Http.Service.decode_answer hqueue (legible _ (by simp)) capacity streams now,
    hkeyed.carried actor request⟩

theorem clients_read_own_items_after_edit :
    let edit := Fields.ofMembers [("note", .string "seen twice")]
    let q := (ofSeed .optional [.dated 1 none]).run [.request .alice (.update 1 0 edit)]
    Http.Client.decode default (.fetch 1)
        (Http.Service.answer ⟨q, 256, []⟩ (.serve .bob (.fetch 1))).2 =
      .ok { Reviewable.dated 1 none with version := 1, fields := edit } := by
  intro edit q
  have hseeded : ∀ r ∈ [Reviewable.dated 1 none], r.IsLegible fieldLevels :=
    List.forall_mem_singleton.mpr (isLegible_dated 1 none 0)
  have hedit : edit.AreUpdates fieldLevels := by
    intro name value hget
    obtain ⟨rfl, rfl⟩ := Prod.mk.inj (List.mem_singleton.mp (Fields.mem_of_getElem?_ofMembers hget))
    exact .inr ⟨by rintro ⟨⟩ <;> decide, rfl⟩
  have hlegible : ∀ op ∈ [Operation.request .alice (.update 1 0 edit), .request .bob (.fetch 1)],
      op.IsLegible := by
    simpa [Operation.IsLegible] using hedit
  have hread := (clients_read_own_items .optional [.dated 1 none]
    [.request .alice (.update 1 0 edit)] .bob (.fetch 1) 256 [] default hseeded hlegible).1
  have hserve : q.serve .bob (.fetch 1) =
      .ok ⟨q, [], { Reviewable.dated 1 none with version := 1, fields := edit }⟩ := rfl
  rw [reply_of_granted hserve] at hread
  exact hread

/-- An edit of a field called like the version is what clients read for the version. -/
theorem edit_hides_version :
    let edit := Fields.ofMembers [("version", .ofUInt64 99)]
    let q := (ofSeed .optional [.dated 1 none]).run [.request .alice (.update 1 0 edit)]
    ∃ r s, q.items[(1 : ReviewableId)]? = some r ∧ r.version = 1 ∧
      Http.Client.decode default (.fetch 1)
        (Http.Service.answer ⟨q, 256, []⟩ (.serve .bob (.fetch 1))).2 = .ok s ∧
      s.version = 99 := by
  intro edit q
  let stored : Reviewable := { Reviewable.dated 1 none with version := 1, fields := edit }
  let shown : Reviewable := { Reviewable.dated 1 none with version := 99 }
  have hserve : q.serve .bob (.fetch 1) = .ok ⟨q, [], stored⟩ := rfl
  have hsame : Http.Service.responseTo (.fetch 1) stored =
      Http.Service.responseTo (.fetch 1) shown := by
    rw [Http.Service.responseTo_fetch, Http.Service.responseTo_fetch,
      normalize_toJson_of_version_field]
  have hlegible : ∀ r ∈ Request.carried (.fetch 1) (.ok shown), r.IsLegible fieldLevels :=
    List.forall_mem_singleton.mpr (isLegible_dated 1 none 99)
  have hread := Http.Client.decode_responseTo hlegible default
  refine ⟨stored, shown.reread, rfl, rfl, ?_, rfl⟩
  rw [Http.Service.answer_of_granted hserve, hsame, hread]
  rfl

end Queue

end Moderation
