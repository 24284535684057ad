import Moderation.Proofs.Queue.Run
import Moderation.Proofs.Wire.Reviewable

/-!
# Queues that can be read

Reviewables stay legible in every run whose edits keep to the names of fields. Nothing else can
make a reviewable illegible: requests other than edits leave the fields alone.
-/

namespace Moderation

/-- The levels that are left for a field where it lies deepest: in a reviewable, in a list or
result, in an envelope. -/
def fieldLevels : Nat := Json.depth - 3

/-- An entry of an edit that goes to the category or to a field of its own. -/
def Json.IsUpdate (levels : Nat) (name : String) (value : Json) : Prop :=
  name = "category_id" ∨
    (∀ key : Reviewable.Key, key.name ≠ name) ∧ value.isLegible levels = true

/-- An edit that leaves reviewables legible. -/
def Fields.AreUpdates (levels : Nat) (updates : Fields) : Prop :=
  ∀ (name : String) (value : Json), updates[name]? = some value → value.IsUpdate levels name

namespace Reviewable

variable {levels : Nat} {r : Reviewable} {name : String} {value : Json}

theorem isLegible_mergePayload {stored : Option Json} {members : List (String × Json)}
    (old : ∀ v, stored = some v → v.isLegible levels = true)
    (new : (Json.object members).isLegible levels = true) :
    (mergePayload stored members).isLegible levels = true := by
  obtain ⟨less, rfl, hmembers⟩ := Json.isLegible_object_iff.mp new
  have hnew : ∀ (name : String) (value : Json),
      (Fields.ofMembers members)[name]? = some value → value.isLegible less = true :=
    fun name value hget ↦ hmembers (name, value) (Fields.mem_of_getElem?_ofMembers hget)
  unfold mergePayload
  split
  · rename_i entries
    obtain ⟨_, heq, hentries⟩ := Json.isLegible_object_iff.mp (old _ rfl)
    obtain rfl := Nat.succ.inj heq
    refine Json.isLegible_ofFields_iff.mpr ⟨less, rfl, fun name value hget ↦ ?_⟩
    rcases Fields.getElem?_overlay hget with hupper | hlower
    · exact hnew name value hupper
    · exact hentries (name, value) (Fields.mem_of_getElem?_ofMembers hlower)
  · exact Json.isLegible_ofFields_iff.mpr ⟨less, rfl, hnew⟩

/-- A field of a name of its own may be put down. -/
theorem IsLegible.insert (h : r.IsLegible levels) (apart : ∀ key : Key, key.name ≠ name)
    (legible : value.isLegible levels = true) :
    { r with fields := r.fields.insert name value }.IsLegible levels := by
  have hcases : ∀ (other : String) (v : Json), (r.fields.insert name value)[other]? = some v →
      name = other ∧ value = v ∨ r.fields[other]? = some v := by
    intro other v hget
    rw [Std.ExtTreeMap.getElem?_insert] at hget
    split at hget
    · rename_i heq
      exact .inl ⟨Std.LawfulEqOrd.eq_of_compare heq, Option.some.inj hget⟩
    · exact .inr hget
  refine ⟨h.created, fun other v hget ↦ ?_, fun other v hget ↦ ?_⟩
  · rcases hcases other v hget with ⟨rfl, -⟩ | hold
    · exact apart
    · exact h.apart other v hold
  · rcases hcases other v hget with ⟨-, rfl⟩ | hold
    · exact legible
    · exact h.fields other v hold

theorem IsLegible.applyUpdate (h : r.IsLegible levels) (update : value.IsUpdate levels name) :
    (r.applyUpdate name value).IsLegible levels := by
  unfold Reviewable.applyUpdate
  split
  · exact ⟨h.created, h.apart, h.fields⟩
  · rename_i hcategory
    obtain ⟨apart, legible⟩ := update.resolve_left hcategory
    split
    · rename_i hpayload
      subst hpayload
      split
      · exact h.insert apart
          (isLegible_mergePayload (fun v hv ↦ h.fields "payload" v hv) legible)
      · exact h
    · exact h.insert apart legible

theorem IsLegible.applyUpdates (h : r.IsLegible levels) {updates : Fields}
    (legible : updates.AreUpdates levels) : (r.applyUpdates updates).IsLegible levels := by
  unfold Reviewable.applyUpdates
  have hentries : ∀ entry ∈ updates.members, entry.2.IsUpdate levels entry.1 :=
    fun entry hmem ↦ legible entry.1 entry.2 (Fields.mem_members_iff.mp hmem)
  generalize updates.members = entries at hentries
  induction entries generalizing r with
  | nil => exact h
  | cons entry rest ih =>
    obtain ⟨hentry, hrest⟩ := List.forall_mem_cons.mp hentries
    exact ih (h.applyUpdate hentry) hrest

end Reviewable

namespace Queue

/-- Every reviewable of the queue can be read wherever it is answered. -/
def IsLegible (q : Queue) : Prop :=
  ∀ (id : ReviewableId) (r : Reviewable), q.items[id]? = some r → r.IsLegible fieldLevels

/-- An operation that brings in nothing that could not be read. -/
def Operation.IsLegible : Operation → Prop
  | .request _ (.update _ _ updates) => updates.AreUpdates fieldLevels
  | .insert r => r.IsLegible fieldLevels
  | _ => True

variable {q q' : Queue} {actor : User} {request : Request} {events : List Event}

theorem Effect.isLegible (h : Effect q actor request q' events) (legible : q.IsLegible)
    (op : (Operation.request actor request).IsLegible) : q'.IsLegible := by
  intro id s hs
  obtain ⟨r, hr, hitem, -⟩ := h.item_before hs
  have hlegible := legible id r hr
  cases hitem with
  | kept request other same =>
    rw [same]
    exact ⟨hlegible.created, hlegible.apart, hlegible.fields⟩
  | edited version updates writable eq =>
    rw [eq]
    have hupdated := hlegible.applyUpdates op
    exact ⟨hupdated.created, hupdated.apart, hupdated.fields⟩
  | resolved action version data status writable granted eq =>
    rw [eq]
    exact ⟨hlegible.created, hlegible.apart, hlegible.fields⟩

theorem IsLegible.insert {r : Reviewable} (h : q.IsLegible) (legible : r.IsLegible fieldLevels) :
    (q.insert r).IsLegible := by
  intro id s hs
  rw [items_insert] at hs
  split at hs
  · obtain rfl := Option.some.inj hs
    exact ⟨legible.created, legible.apart, legible.fields⟩
  · exact h id s hs

theorem IsLegible.after (h : q.IsLegible) {op : Operation} (legible : op.IsLegible) :
    (q.after op).IsLegible := by
  cases op with
  | request actor request =>
    rcases q.request_cases actor request with ⟨-, hafter, -⟩ | ⟨-, heffect⟩
    · rw [hafter]
      exact h
    · exact heffect.isLegible h legible
  | setMode mode => exact h
  | insert r => exact h.insert legible

theorem IsLegible.run (h : q.IsLegible) {ops : List Operation}
    (legible : ∀ op ∈ ops, op.IsLegible) : (q.run ops).IsLegible :=
  run_induction (fun _ op hop hq ↦ hq.after (legible op hop)) h

theorem isLegible_ofSeed {seed : List Reviewable} (legible : ∀ r ∈ seed, r.IsLegible fieldLevels)
    (mode : ClaimMode) : (ofSeed mode seed).IsLegible := by
  rw [ofSeed_eq_run]
  have hempty : (empty mode).IsLegible := by simp [IsLegible, empty]
  exact hempty.run (List.forall_mem_map.mpr legible)

end Queue

end Moderation
