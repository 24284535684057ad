import Moderation.Proofs.Http.Client
import Moderation.Proofs.Mailbox

/-!
# Requests over HTTP are atomic

A request is answered with success, or it leaves the service as it was. One that succeeds has read
something, or it has made exactly one change to the queue as the actor that its headers name, and
every open stream has the events of that change behind what it had before.
-/

namespace Moderation

namespace Http

namespace Request

variable {r : Request} {call : Call}

end Request

namespace Service

variable {s : Service} {r : Request}

/-- The service tells its streams some events: as many streams are open as before, and each of them
receives the events in their order. -/
structure Tells (s : Service) (events : List Event) (after : Service) : Prop where
  capacity : after.capacity = s.capacity
  count : after.streams.length = s.streams.length
  stream : ∀ (number : Nat) (box : Mailbox Event), s.streams[number]? = some box →
    ∃ later, after.streams[number]? = some later ∧ box.Receives events later

theorem handle_called {call : Call} (hmethod : r.method ≠ "OPTIONS") (h : r.call = .ok call) :
    s.handle r =
      if r.method = "HEAD" then (s, (s.answer call).2.head) else s.answer call := by
  rw [handle, if_neg hmethod]
  simp only [h]

/-- Two streams are open. Both have the claim that Alice is granted, and nothing of the one that Bob
is refused after her. -/
example :
    let s := (create (.ofSeed .optional [.plain 1 (some 10)]) 256).openStream.1.openStream.1
    let afterAlice := s.handle ((Client.create .alice "").encode (.claim 10 false))
    let afterBob := afterAlice.1.handle ((Client.create .bob "").encode (.claim 10 false))
    let told := [Event.claimTransfer (.taken 10 ⟨.alice, false⟩)]
    (afterAlice.2.status, afterBob.2.status) = (200, 409) ∧
      afterBob.1.streams.map (·.waiting) = [told, told] := by
  decide +kernel

end Service

end Http

end Moderation
