import Moderation.Proofs.Http.Atomic
import Moderation.Proofs.Http.Request
import Moderation.Proofs.Queue.Resolution

/-!
# Exchanges

A client at the root of a service hears over HTTP what the queue itself says, and the service is
left as the queue leaves itself. This takes that the service knows the client for who it is, and
that free-form values are plain: they come back as they are. A request with a longer body than the
service reads is refused, whatever the queue would say.
-/

namespace Moderation

namespace Queue

variable {q : Queue} {actor : User} {request : Request} {id : ReviewableId}
  {expected current : UInt64}

/-- A change that meets a version conflict meets it on its reviewable. -/
theorem exists_item_of_obstacle {target : ReviewableId} {r : Reviewable} {version : UInt64}
    (keyed : q.Keyed) (found : q.items[target]? = some r)
    (h : q.Obstructs r version actor (.versionConflict id expected current)) :
    ∃ r, q.items[id]? = some r ∧ r.version = current := by
  cases h with
  | outdated pending moved => exact ⟨r, (keyed target r found).symm ▸ found, rfl⟩

theorem claim_ne_versionConflict (q : Queue) (topic : TopicId) (actor : User) (automatic : Bool) :
    q.claim topic actor automatic ≠ .error (.versionConflict id expected current) := by
  rw [claim]
  cases hclaim : q.topicClaim topic with
  | none => nofun
  | some existing =>
    dsimp only
    repeat' split
    all_goals nofun

theorem unclaim_ne_versionConflict (q : Queue) (topic : TopicId) (actor : User)
    (automatic : Bool) :
    q.unclaim topic actor automatic ≠ .error (.versionConflict id expected current) := by
  rw [unclaim]
  cases hclaim : q.topicClaim topic with
  | none => nofun
  | some existing =>
    dsimp only
    repeat' split
    all_goals nofun

/-- A version conflict is about a reviewable of the queue and names its version. -/
theorem exists_item_of_versionConflict (keyed : q.Keyed)
    (h : q.serve actor request = .error (.versionConflict id expected current)) :
    ∃ r, q.items[id]? = some r ∧ r.version = current := by
  cases request with
  | perform target action version data =>
    cases perform_eq_error_iff.mp h with
    | obstructed r refusal found obstacle => exact exists_item_of_obstacle keyed found obstacle
  | update target version updates =>
    rcases update_eq_error_iff.mp h with ⟨-, hmissing⟩ | ⟨r, found, obstacle⟩
    · cases hmissing
    · exact exists_item_of_obstacle keyed found obstacle
  | claim topic automatic => exact absurd h (q.claim_ne_versionConflict topic actor automatic)
  | release topic automatic => exact absurd h (q.unclaim_ne_versionConflict topic actor automatic)
  | fetch target =>
    rw [serve] at h
    cases hget : q.get target with
    | error refusal =>
      rw [hget] at h
      obtain rfl := Except.error.inj h
      cases (get_eq_error_iff.mp hget).2
    | ok r =>
      rw [hget] at h
      cases h
  | list => cases h

end Queue

/-! ## Long bodies -/

/-- What is made of a row, piece by piece and never of nothing, is no shorter than the row. -/
theorem length_le_flatMap {α β : Type} {f : α → List β} (some : ∀ a, f a ≠ []) (xs : List α) :
    xs.length ≤ (xs.flatMap f).length := by
  induction xs with
  | nil => exact Nat.zero_le _
  | cons a xs ih =>
    have hpiece : 0 < (f a).length := List.length_pos_iff.mpr (some a)
    rw [List.flatMap_cons, List.length_append, List.length_cons]
    omega

namespace Json

theorem escapeChar_ne_nil (c : Char) : escapeChar c ≠ [] := by
  unfold escapeChar
  repeat' split
  all_goals exact List.cons_ne_nil _ _

theorem length_lt_print_string (text : String) :
    text.toList.length < (print (.string text)).length := by
  have hescaped := length_le_flatMap escapeChar_ne_nil text.toList
  rw [print, quote, List.length_cons, List.length_append]
  omega

/-- An object is written with all that it holds. -/
theorem length_print_lt {members : List (String × Json)} {name : String} {value : Json}
    (h : (name, value) ∈ members) :
    (print value).length < (print (.object members)).length := by
  rw [print, List.length_cons, Nat.lt_succ_iff]
  induction members with
  | nil => cases h
  | cons first rest ih =>
    obtain ⟨first, firstValue⟩ := first
    cases rest with
    | nil =>
      obtain ⟨rfl, rfl⟩ := Prod.mk.inj (List.mem_singleton.mp h)
      simp only [printMembers, List.length_append, List.length_cons]
      omega
    | cons next rest =>
      rw [printMembers_more]
      simp only [List.length_append, List.length_cons]
      rcases List.mem_cons.mp h with heq | hrest
      · obtain ⟨rfl, rfl⟩ := Prod.mk.inj heq
        omega
      · have hlater := ih hrest
        omega

end Json

namespace Http.Client

variable {c : Client} {request : Moderation.Request}

theorem hasHeaders_of_identified
    (identified : Identity.moderator (Identity.headers c.actor) = .ok c.actor) :
    c.hasHeaders = true := Identity.isAllowed_username identified

/-- What a client sends for a plain request is answered as a call, if the body is not too long. -/
theorem handle_encode (s : Service) (root : c.root = "")
    (identified : Identity.moderator (Identity.headers c.actor) = .ok c.actor)
    (plain : request.IsPlain) (fits : (c.encode request).body.length ≤ Body.limit) :
    ∃ actor, s.handle (c.encode request) = s.answer (.serve actor request) ∧
      ∀ q : Queue, q.serve actor request = q.serve c.actor request := by
  obtain ⟨actor, hcall, hsame⟩ := Request.call_encode root identified plain fits
  obtain ⟨hhead, hoptions⟩ := Request.methodOf_ne request
  exact ⟨actor, (Service.handle_called hoptions hcall).trans (if_neg hhead), hsame⟩

/-- A client hears the reply of the queue to a request that is not too long. -/
theorem exchange_of_fits (s : Service) (now : Time) (root : c.root = "")
    (identified : Identity.moderator (Identity.headers c.actor) = .ok c.actor)
    (plain : s.queue.IsPlain) (hrequest : request.IsPlain)
    (fits : (c.encode request).body.length ≤ Body.limit) :
    c.exchange s now request = match s.queue.serve c.actor request with
      | .ok granted =>
        (.ok granted.answer, { s with queue := granted.queue }.broadcast granted.events)
      | .error refusal => (.error (refusal.fault s.queue), s) := by
  obtain ⟨actor, hhandle, hsame⟩ := handle_encode s root identified hrequest fits
  have hdecode : decode now request (s.answer (.serve actor request)).2 =
      (s.queue.reply actor request).1 := by
    rw [← Queue.rereadReply_reply plain hrequest]
    exact Service.decode_answer plain.isLegible (hrequest.isLegible actor) s.capacity s.streams now
  have hexchange : c.exchange s now request =
      ((s.queue.reply actor request).1, (s.answer (.serve actor request)).1) := by
    rw [exchange, if_pos (hasHeaders_of_identified identified), hhandle]
    exact congrArg (·, _) hdecode
  rw [← hsame, hexchange, Service.answer]
  cases hserve : s.queue.serve actor request with
  | ok granted => rw [Queue.reply_of_granted hserve]
  | error refusal => rw [Queue.reply_of_refused hserve]

/-- A request that is too long is refused, and leaves the service as it is. -/
theorem exchange_of_long (s : Service) (now : Time) (root : c.root = "")
    (identified : Identity.moderator (Identity.headers c.actor) = .ok c.actor)
    (plain : request.IsPlain) (long : ¬ (c.encode request).body.length ≤ Body.limit) :
    c.exchange s now request =
      (.error (.rejected 413 "error" "server responded with status 413"), s) := by
  have hcall := Request.call_encode_of_long root identified plain long
  obtain ⟨hhead, hoptions⟩ : (c.encode request).method ≠ "HEAD" ∧
      (c.encode request).method ≠ "OPTIONS" := Request.methodOf_ne request
  have hhandle : s.handle (c.encode request) = (s, Rejection.tooLong.response) := by
    rw [Service.handle, if_neg hoptions, hcall]
    dsimp only
    rw [if_neg hhead]
  rw [exchange, if_pos (hasHeaders_of_identified identified), hhandle]
  rfl

/-- A client hears the reply of the queue, and the service is left as the queue leaves itself, with
the events of the change told to every stream. A request with too long a body is refused instead,
and nothing changes. -/
theorem exchange_eq (s : Service) (now : Time) (root : c.root = "")
    (identified : Identity.moderator (Identity.headers c.actor) = .ok c.actor)
    (keyed : s.queue.Keyed) (plain : s.queue.IsPlain) (hrequest : request.IsPlain) :
    if (c.encode request).body.length ≤ Body.limit then
      match s.queue.serve c.actor request with
      | .ok granted => c.exchange s now request =
          (.ok granted.answer, { s with queue := granted.queue }.broadcast granted.events)
      | .error refusal => c.exchange s now request = (.error (refusal.fault s.queue), s) ∧
          ∀ id expected current, refusal = .versionConflict id expected current →
            ∃ r, s.queue.items[id]? = some r ∧ r.version = current
    else c.exchange s now request =
      (.error (.rejected 413 "error" "server responded with status 413"), s) := by
  split
  · rename_i hfits
    rw [exchange_of_fits s now root identified plain hrequest hfits]
    cases hserve : s.queue.serve c.actor request with
    | ok granted => rfl
    | error refusal =>
      refine ⟨rfl, ?_⟩
      rintro id expected current rfl
      exact Queue.exists_item_of_versionConflict keyed hserve
  · rename_i hlong
    exact exchange_of_long s now root identified hrequest hlong

/-- Who is told of a conflict gets the reviewable as it is, and an edit is answered with what it
makes of the reviewable. -/
theorem exchange_conflict_and_edit :
    let c := create .alice "/"
    let now : Time := ⟨2024, 3, 2, 9, 30, 0, 0⟩
    let r := { Reviewable.dated 1 none with
      fields := Fields.ofMembers [("note", .array [.string "é", .null])] }
    let edit := Fields.ofMembers [("payload", .ofFields (Fields.ofMembers [("n", .ofNat 5)]))]
    let s := Service.create (.ofSeed .optional [r]) 256
    (c.exchange s now (.perform 1 "approve_post" 3 ∅)).1 = .error (.versionConflict
        "reviewable 1 was modified by someone else (expected version 3, current version 0)"
        (some r)) ∧
      (c.exchange s now (.update 1 0 edit)).1 =
        .ok { r with version := 1, fields := r.fields.overlay edit } := by
  intro c now r edit s
  have hroot : c.root = "" := rfl
  have hidentified : Identity.moderator (Identity.headers c.actor) = .ok c.actor := by
    decide +kernel
  have hkeyed : s.queue.Keyed :=
    Queue.Reachable.keyed ⟨.optional, [.insert r], rfl⟩
  have hnote : ∀ (name : String) (value : Json), r.fields[name]? = some value →
      (name, value) = ("note", .array [.string "é", .null]) := fun name value hget ↦
    List.mem_singleton.mp (Fields.mem_of_getElem?_ofMembers hget)
  have hr : r.IsPlain := by
    refine ⟨rfl, fun name value hget ↦ ?_, fun name value hget ↦ ?_⟩
    · obtain ⟨rfl, -⟩ := Prod.mk.inj (hnote name value hget)
      rintro ⟨⟩ <;> decide
    · obtain ⟨-, rfl⟩ := Prod.mk.inj (hnote name value hget)
      exact .array (by simpa using ⟨.string _, .null⟩)
  have hplain : s.queue.IsPlain := Queue.isPlain_ofSeed (by simpa using hr) .optional
  have hperform : (Moderation.Request.perform 1 "approve_post" 3 ∅).IsPlain :=
    ⟨by decide, Fields.ArePlain.empty⟩
  have hpayload : ∀ (name : String) (value : Json), edit[name]? = some value →
      (name, value) = ("payload", .ofFields (Fields.ofMembers [("n", .ofNat 5)])) :=
    fun name value hget ↦ List.mem_singleton.mp (Fields.mem_of_getElem?_ofMembers hget)
  have hupdate : (Moderation.Request.update 1 0 edit).IsPlain := by
    refine ⟨fun name value hget ↦ ?_, fun name value hget ↦ ?_⟩
    · obtain ⟨-, rfl⟩ := Prod.mk.inj (hpayload name value hget)
      refine .object fun name value hget ↦ ?_
      obtain ⟨-, rfl⟩ :=
        Prod.mk.inj (List.mem_singleton.mp (Fields.mem_of_getElem?_ofMembers hget))
      exact .integer (by decide)
    · obtain ⟨rfl, -⟩ := Prod.mk.inj (hpayload name value hget)
      exact .inr (by rintro ⟨⟩ <;> decide)
  have hshort : (c.encode (.perform 1 "approve_post" 3 ∅)).body.length ≤ Body.limit ∧
      (c.encode (.update 1 0 edit)).body.length ≤ Body.limit := by decide +kernel
  have hconflict := exchange_eq s now hroot hidentified hkeyed hplain hperform
  have hedit := exchange_eq s now hroot hidentified hkeyed hplain hupdate
  rw [if_pos hshort.1] at hconflict
  rw [if_pos hshort.2] at hedit
  have hrefused : s.queue.serve c.actor (.perform 1 "approve_post" 3 ∅) =
      .error (.versionConflict 1 3 0) := rfl
  have hgranted : s.queue.serve c.actor (.update 1 0 edit) =
      .ok ⟨s.queue.put 1 { r with version := 1, fields := r.fields.overlay edit }, [],
        { r with version := 1, fields := r.fields.overlay edit }⟩ := rfl
  rw [hrefused] at hconflict
  rw [hgranted] at hedit
  have hmessage : (Refusal.versionConflict 1 3 0).message =
      "reviewable 1 was modified by someone else (expected version 3, current version 0)" := rfl
  have hitem : s.queue.items[(1 : ReviewableId)]? = some r := rfl
  refine ⟨?_, by rw [hedit]⟩
  rw [hconflict.1, Refusal.fault, hmessage, hitem]

/-- The queue lets Alice act with any data. Over HTTP she cannot if there are two mebibytes of it,
and nothing is done. -/
theorem exchange_refuses_long_data :
    let c := create .alice "/"
    let note := String.ofList (List.replicate Body.limit 'a')
    let data := Fields.ofMembers [("note", .string note)]
    let request : Moderation.Request := .perform 1 "approve_post" 0 data
    let s := Service.create (.ofSeed .optional [.dated 1 none]) 256
    (c.root = "" ∧ Identity.moderator (Identity.headers c.actor) = .ok c.actor ∧
      s.queue.Keyed ∧ s.queue.IsPlain ∧ request.IsPlain) ∧
      (∃ granted, s.queue.serve c.actor request = .ok granted ∧ granted.queue.pendingCount = 0) ∧
      c.exchange s default request =
        (.error (.rejected 413 "error" "server responded with status 413"), s) ∧
      s.queue.pendingCount = 1 := by
  intro c note data request s
  have hroot : c.root = "" := rfl
  have hidentified : Identity.moderator (Identity.headers c.actor) = .ok c.actor := by
    decide +kernel
  have hkeyed : s.queue.Keyed := Queue.Reachable.keyed ⟨.optional, [.insert (.dated 1 none)], rfl⟩
  have hqueue : s.queue.IsPlain := by
    have hfields (name : String) : (∅ : Fields)[name]? = none := Std.ExtTreeMap.getElem?_empty
    have hplain : (Reviewable.dated 1 none).IsPlain := by
      refine ⟨rfl, fun name value hget ↦ ?_, Fields.ArePlain.empty⟩
      cases (hfields name).symm.trans hget
    exact Queue.isPlain_ofSeed (List.forall_mem_singleton.mpr hplain) .optional
  have hdistinct : Fields.AreDistinct [("note", Json.string note)] :=
    show ["note"].Nodup by decide
  have hnote : data["note"]? = some (.string note) :=
    (Fields.getElem?_ofMembers_iff hdistinct).mpr List.mem_cons_self
  have hrequest : request.IsPlain := by
    refine ⟨by decide, fun name value hget ↦ ?_⟩
    obtain ⟨-, rfl⟩ := Prod.mk.inj (List.mem_singleton.mp (Fields.mem_of_getElem?_ofMembers hget))
    exact .string note
  have hlong : ¬ (c.encode request).body.length ≤ Body.limit := by
    have hlength : note.toList.length = Body.limit := by simp [note]
    have hprinted : note.toList.length < (Json.ofFields data).print.length :=
      (Json.length_lt_print_string note).trans
        (Json.length_print_lt (Fields.mem_members_iff.mpr hnote))
    have hbytes : (Json.ofFields data).print.length ≤ (c.encode request).body.length := by
      rw [Request.body_encode rfl, Utf8.encode, Json.text, String.toList_ofList]
      exact length_le_flatMap (fun _ ↦ String.utf8EncodeChar_ne_nil) _
    omega
  have hgranted (data : Fields) : ∃ granted,
      s.queue.serve c.actor (.perform 1 "approve_post" 0 data) = .ok granted ∧
        granted.queue.pendingCount = 0 := ⟨_, rfl, rfl⟩
  exact ⟨⟨hroot, hidentified, hkeyed, hqueue, hrequest⟩, hgranted data,
    exchange_of_long s default hroot hidentified hrequest hlong, rfl⟩

end Http.Client

end Moderation
