/-!
# Powers of two and ten
-/

namespace Moderation

def twoTo (n : Nat) : Nat := Nat.pow 2 n

def tenTo (n : Nat) : Nat := Nat.pow 10 n

end Moderation
