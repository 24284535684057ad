import Std.Data.ExtTreeMap

/-!
# Identities

Reviewables, topics and users are known by unsigned 64-bit numbers, which order them.
-/

namespace Moderation

structure ReviewableId where
  value : UInt64
deriving DecidableEq, Repr, Inhabited

structure TopicId where
  value : UInt64
deriving DecidableEq, Repr, Inhabited

structure UserId where
  value : UInt64
deriving DecidableEq, Repr, Inhabited

namespace ReviewableId

instance : Ord ReviewableId := ⟨compareOn ReviewableId.value⟩

instance : Std.TransOrd ReviewableId :=
  inferInstanceAs (Std.TransCmp (compareOn ReviewableId.value))

instance : Std.LawfulEqOrd ReviewableId where
  compare_self := (inferInstance : Std.ReflCmp (compareOn ReviewableId.value)).compare_self
  eq_of_compare {a b} h := by
    have : compare a.value b.value = .eq := h
    cases a
    cases b
    simpa using this

instance : OfNat ReviewableId n := ⟨⟨UInt64.ofNat n⟩⟩

instance : ToString ReviewableId := ⟨fun id ↦ toString id.value⟩

end ReviewableId

namespace TopicId

instance : Ord TopicId := ⟨compareOn TopicId.value⟩

instance : Std.TransOrd TopicId :=
  inferInstanceAs (Std.TransCmp (compareOn TopicId.value))

instance : Std.LawfulEqOrd TopicId where
  compare_self := (inferInstance : Std.ReflCmp (compareOn TopicId.value)).compare_self
  eq_of_compare {a b} h := by
    have : compare a.value b.value = .eq := h
    cases a
    cases b
    simpa using this

instance : OfNat TopicId n := ⟨⟨UInt64.ofNat n⟩⟩

instance : ToString TopicId := ⟨fun topic ↦ toString topic.value⟩

end TopicId

instance : OfNat UserId n := ⟨⟨UInt64.ofNat n⟩⟩

instance : ToString UserId := ⟨fun user ↦ toString user.value⟩

/-- A moderator, or the author of what is under review. -/
structure User where
  id : UserId
  username : String
deriving DecidableEq, Repr, Inhabited

end Moderation
