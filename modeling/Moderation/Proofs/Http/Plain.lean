import Moderation.Proofs.Http.Replies
import Moderation.Proofs.Http.Target
import Moderation.Proofs.Json.Plain

/-!
# Replies of plain fields

Where the fields of all reviewables are plain they stay plain with every edit of plain values, and
what a reply carries comes back as it is.
-/

namespace Moderation

namespace Reviewable

/-- What a reviewable needs so that it comes back as it is. -/
structure IsPlain (r : Reviewable) : Prop where
  created : r.createdAt.isValid = true
  /-- No field has the name of an attribute. -/
  apart : ∀ (name : String) (value : Json), r.fields[name]? = some value →
    ∀ key : Key, key.name ≠ name
  fields : r.fields.ArePlain fieldLevels

variable {r : Reviewable} {levels : Nat} {name : String} {value : Json}

theorem IsPlain.isLegible (h : r.IsPlain) : r.IsLegible fieldLevels :=
  ⟨h.created, h.apart, fun name value hget ↦ (h.fields name value hget).isLegible⟩

theorem reread_eq (h : r.fields.ArePlain levels) : r.reread = r := by
  have hfields : r.fields.reread = r.fields :=
    Fields.map_eq_self fun name value hget ↦ (h name value hget).reread_eq
  rw [reread, hfields]

theorem map_reread_eq {current : Option Reviewable} (h : ∀ r ∈ current.toList, r.reread = r) :
    current.map Reviewable.reread = current := by
  cases current with
  | none => rfl
  | some r => exact congrArg some (h r List.mem_cons_self)

theorem isPlain_mergePayload {stored : Option Json} {members : List (String × Json)}
    (old : ∀ v, stored = some v → v.IsPlain levels)
    (new : (Json.object members).IsPlain levels) :
    (mergePayload stored members).IsPlain levels := by
  obtain ⟨less, rfl, hnew⟩ := Fields.ArePlain.of_object new
  unfold mergePayload
  split
  · obtain ⟨_, heq, hold⟩ := Fields.ArePlain.of_object (old _ rfl)
    obtain rfl := Nat.succ.inj heq
    exact .object (hold.overlay hnew)
  · exact .object hnew

theorem arePlain_applyUpdate (h : r.fields.ArePlain levels) (hvalue : value.IsPlain levels) :
    (r.applyUpdate name value).fields.ArePlain levels := by
  unfold applyUpdate
  split
  · exact h
  split
  · split
    · exact h.insert (isPlain_mergePayload (fun v hv ↦ h "payload" v hv) hvalue)
    · exact h
  · exact h.insert hvalue

theorem arePlain_applyUpdates (h : r.fields.ArePlain levels) {updates : Fields}
    (plain : updates.ArePlain levels) : (r.applyUpdates updates).fields.ArePlain levels := by
  unfold applyUpdates
  have hentries : ∀ entry ∈ updates.members, entry.2.IsPlain levels :=
    fun entry hmem ↦ plain entry.1 entry.2 (Fields.mem_members_iff.mp hmem)
  generalize updates.members = entries at hentries
  induction entries generalizing r with
  | nil => exact h
  | cons entry rest ih =>
    obtain ⟨hentry, hrest⟩ := List.forall_mem_cons.mp hentries
    exact ih (arePlain_applyUpdate h hentry) hrest

end Reviewable

namespace Queue

/-- Every reviewable of the queue comes back as it is. -/
def IsPlain (q : Queue) : Prop :=
  ∀ (id : ReviewableId) (r : Reviewable), q.items[id]? = some r → r.IsPlain

theorem IsPlain.isLegible {q : Queue} (h : q.IsPlain) : q.IsLegible :=
  fun id r hget ↦ (h id r hget).isLegible

theorem IsPlain.insert {q : Queue} {r : Reviewable} (h : q.IsPlain) (plain : r.IsPlain) :
    (q.insert r).IsPlain := by
  intro id s hs
  rw [items_insert] at hs
  split at hs
  · obtain rfl := Option.some.inj hs
    exact ⟨plain.created, plain.apart, plain.fields⟩
  · exact h id s hs

/-- A queue of plain reviewables is plain. -/
theorem isPlain_ofSeed {seed : List Reviewable} (plain : ∀ r ∈ seed, r.IsPlain) (mode : ClaimMode) :
    (ofSeed mode seed).IsPlain := by
  have hempty : (empty mode).IsPlain := by simp [IsPlain, empty]
  rw [ofSeed]
  generalize empty mode = q at hempty
  induction seed generalizing q with
  | nil => exact hempty
  | cons r rest ih =>
    obtain ⟨hr, hrest⟩ := List.forall_mem_cons.mp plain
    exact ih hrest _ (hempty.insert hr)

end Queue

namespace Request

/-- The free-form values of a request are plain. The name of an action is a word, and edits keep to
the category and to names of their own. -/
def IsPlain : Request → Prop
  | .perform _ action _ data => Http.IsWord action.toList ∧ data.ArePlain fieldLevels
  | .update _ _ updates => updates.ArePlain fieldLevels ∧
    ∀ (name : String) (value : Json), updates[name]? = some value →
      name = "category_id" ∨ ∀ key : Reviewable.Key, key.name ≠ name
  | .claim .. | .release .. | .fetch _ | .list => True

variable {request : Request}

theorem IsPlain.isLegible (h : request.IsPlain) (actor : User) :
    (Queue.Operation.request actor request).IsLegible := by
  cases request with
  | update id version updates =>
    intro name value hget
    exact (h.2 name value hget).imp_right fun apart ↦ ⟨apart, (h.1 name value hget).isLegible⟩
  | perform | claim | release | fetch | list => trivial

/-- A reply comes back as it is if what it carries does. -/
theorem rereadReply_eq {reply : request.Reply}
    (h : ∀ r ∈ request.carried reply, r.reread = r) : request.rereadReply reply = reply := by
  cases reply with
  | ok answer =>
    refine congrArg Except.ok ?_
    cases request with
    | perform id action version data =>
      have hcurrent : answer.reviewable.map Reviewable.reread = answer.reviewable :=
        Reviewable.map_reread_eq h
      rw [rereadAnswer, PerformResult.reread, hcurrent]
    | claim => rfl
    | release => rfl
    | fetch id => exact h answer List.mem_cons_self
    | list => exact (List.map_congr_left h).trans (List.map_id' _)
    | update id version updates => exact h answer List.mem_cons_self
  | error fault =>
    refine congrArg Except.error ?_
    cases fault with
    | versionConflict message current =>
      have hcurrent : ∀ r ∈ current.toList, r.reread = r := by cases request <;> exact h
      rw [BackendFault.reread, Reviewable.map_reread_eq hcurrent]
    | claimConflict | rejected | transport | undecodable => rfl

end Request

namespace Queue

variable {q q' : Queue} {actor : User} {request : Request} {events : List Event}

theorem Effect.arePlain (h : Effect q actor request q' events) (plain : q.IsPlain)
    (op : request.IsPlain) {id : ReviewableId} {r : Reviewable} (hr : q'.items[id]? = some r) :
    r.fields.ArePlain fieldLevels := by
  obtain ⟨s, hs, hitem, -⟩ := h.item_before hr
  have hplain := (plain id s hs).fields
  cases hitem with
  | kept request other same =>
    rw [same]
    exact hplain
  | edited version updates writable eq =>
    rw [eq]
    exact Reviewable.arePlain_applyUpdates hplain op.1
  | resolved action version data status writable granted eq =>
    rw [eq]
    exact hplain

/-- What a plain queue replies comes back as it is. -/
theorem rereadReply_reply (plain : q.IsPlain) (op : request.IsPlain) (actor : User) :
    request.rereadReply (q.reply actor request).1 = (q.reply actor request).1 := by
  refine Request.rereadReply_eq fun r hr ↦ ?_
  obtain ⟨id, hid⟩ := q.exists_item_of_reply actor request hr
  cases hserve : q.serve actor request with
  | ok granted =>
    rw [reply_of_granted hserve] at hid
    exact Reviewable.reread_eq ((serve_effect hserve).arePlain plain op hid)
  | error refusal =>
    rw [reply_of_refused hserve] at hid
    exact Reviewable.reread_eq (plain id r hid).fields

end Queue

end Moderation
