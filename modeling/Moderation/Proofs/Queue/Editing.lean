import Moderation.Proofs.Edit.Merge
import Moderation.Proofs.Queue.Effect
import Moderation.Proofs.Specimen

/-!
# Edits in the queue

Two edits that the queue grants one after the other leave the reviewable as the edit that they are
together would have left it, one version further on.
-/

namespace Moderation.Queue

variable {q : Queue} {id : ReviewableId} {first second : Fields}

theorem put_put (q : Queue) (id : ReviewableId) (r s : Reviewable) :
    (q.put id r).put id s = q.put id s := by
  have hitems : (q.items.insert id r).insert id s = q.items.insert id s := by
    apply Std.ExtTreeMap.ext_getElem?
    intro other
    simp only [Std.ExtTreeMap.getElem?_insert]
    split <;> rfl
  unfold put
  rw [hitems]

/-- The second of two edits makes what the edit for both makes, counted once more. -/
theorem edited_edited (r : Reviewable) (first second : Fields) :
    edited (edited r first) second =
      { edited r (first.followedBy second) with
        version := (edited r (first.followedBy second)).version + 1 } := by
  have hversion (updates : Fields) : (r.applyUpdates updates).version = r.version := by
    obtain ⟨_, _, hframe⟩ := r.applyUpdates_frame updates
    rw [hframe]
  unfold edited
  rw [Reviewable.applyUpdates_withVersion, Reviewable.applyUpdates_applyUpdates]
  simp only [hversion]

/-- Where the first of two edits is granted, the edit for both would have been granted too. -/
theorem update_followedBy {version version' : UInt64} {actor actor' : User}
    {granted granted' : Granted Reviewable}
    (hfirst : q.update id version actor first = .ok granted)
    (hsecond : granted.queue.update id version' actor' second = .ok granted') :
    ∃ once, q.update id version actor (first.followedBy second) = .ok once ∧
      granted'.answer = { once.answer with version := once.answer.version + 1 } ∧
      granted'.queue = once.queue.put id granted'.answer ∧ granted'.events = once.events := by
  obtain ⟨r, hfound, hwritable, rfl⟩ := update_eq_ok_iff.mp hfirst
  obtain ⟨s, hs, -, rfl⟩ := update_eq_ok_iff.mp hsecond
  obtain rfl : edited r first = s := Option.some.inj ((q.items_put_self id _).symm.trans hs)
  refine ⟨_, update_eq_ok_iff.mpr ⟨r, hfound, hwritable, rfl⟩, ?_, ?_, rfl⟩
  · exact edited_edited r first second
  · exact (put_put q id _ _).trans (put_put q id _ _).symm

/-- Two edits one after the other come to one edit, which has under each name what the second has,
or else what the first has, except that two payloads are put together. An edit that is made again
changes nothing. In the queue the second edit moves the version on once more. -/
theorem edits_compose (r : Reviewable) (first second : Fields) :
    (∀ name : String, (first.followedBy second)[name]? =
      match first[name]?, second[name]? with
      | some old, some new => some (if name = "payload" then old.payloadOf new else new)
      | old, new => new.or old) ∧
    (r.applyUpdates first).applyUpdates second = r.applyUpdates (first.followedBy second) ∧
    (r.applyUpdates first).applyUpdates first = r.applyUpdates first ∧
    ∀ (q : Queue) (id : ReviewableId) (version version' : UInt64) (actor actor' : User)
      (granted granted' : Granted Reviewable),
      q.update id version actor first = .ok granted →
      granted.queue.update id version' actor' second = .ok granted' →
      ∃ once, q.update id version actor (first.followedBy second) = .ok once ∧
        granted'.answer = { once.answer with version := once.answer.version + 1 } ∧
        granted'.queue = once.queue.put id granted'.answer ∧ granted'.events = once.events := by
  refine ⟨first.getElem?_followedBy second, r.applyUpdates_applyUpdates first second,
    r.applyUpdates_self first, ?_⟩
  intro q id version version' actor actor' granted granted' hfirst hsecond
  exact update_followedBy hfirst hsecond

/-- Bob's edit follows Alice's: the title of the payload is hers and the text is his. -/
theorem edits_compose_of_two_moderators :
    let hers := Fields.ofMembers
      [("payload", .object [("raw", .string "hers"), ("title", .string "title")]),
        ("category_id", .ofUInt64 4)]
    let his := Fields.ofMembers
      [("payload", .object [("raw", .string "his")]), ("tags", .array [.string "spam"])]
    let both := Fields.ofMembers
      [("payload", .object [("raw", .string "his"), ("title", .string "title")]),
        ("category_id", .ofUInt64 4), ("tags", .array [.string "spam"])]
    let q := ofSeed .optional [.plain 1 none]
    ∃ granted granted' once, q.update 1 0 .alice hers = .ok granted ∧
      granted.queue.update 1 1 .bob his = .ok granted' ∧ q.update 1 0 .alice both = .ok once ∧
      granted'.answer = { once.answer with version := 2 } := by
  intro hers his both q
  have hboth : hers.followedBy his = both := rfl
  obtain ⟨once, honce, hanswer, -⟩ :=
    (edits_compose (.plain 1 none) hers his).2.2.2 q 1 0 1 .alice .bob _ _ rfl rfl
  rw [hboth] at honce
  have hversion : once.answer.version = 1 := by
    obtain rfl := Except.ok.inj honce
    rfl
  exact ⟨_, _, once, rfl, rfl, honce, by rw [hanswer, hversion]; rfl⟩

end Moderation.Queue
