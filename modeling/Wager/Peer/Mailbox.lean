import Wager.Peer.Channel

/-!
# Mailboxes

The plainest connection to a peer: what is sent is kept in order, and what was delivered is
received topic by topic, the oldest message first. Nothing is lost on the way, and nothing fails.
-/

namespace Wager

structure Mailbox where
  /-- The messages that were not received yet, the oldest first. -/
  waiting : List (Topic × Bytes)
  /-- The messages that were sent, the oldest first. -/
  sent : List (Topic × Bytes)
deriving DecidableEq, Repr

namespace Mailbox

def empty : Mailbox := ⟨[], []⟩

/-- Puts a message behind those that wait. -/
def deliver (m : Mailbox) (topic : Topic) (message : Bytes) : Mailbox :=
  { m with waiting := m.waiting ++ [(topic, message)] }

def send (m : Mailbox) (topic : Topic) (message : Bytes) : Mailbox :=
  { m with sent := m.sent ++ [(topic, message)] }

/-- The oldest message on a topic, and the mailbox without it. -/
def receive (m : Mailbox) (topic : Topic) : Option Bytes × Mailbox :=
  ((m.waiting.find? (·.1 = topic)).map (·.2),
    { m with waiting := m.waiting.eraseP (·.1 = topic) })

def link : Link Mailbox where
  send topic message := modify (·.send topic message)
  receive topic := modifyGet (·.receive topic)

theorem link_send (topic : Topic) (message : Bytes) (m : Mailbox) :
    (link.send topic message).run m = (.ok (), m.send topic message) := rfl

theorem link_receive (topic : Topic) (m : Mailbox) :
    (link.receive topic).run m = (.ok (m.receive topic).1, (m.receive topic).2) := rfl

/-- A message on a topic that nothing else waits on is the next one received. -/
theorem receive_deliver (m : Mailbox) (topic : Topic) (message : Bytes)
    (h : ∀ entry ∈ m.waiting, entry.1 ≠ topic) :
    (m.deliver topic message).receive topic = (some message, m) := by
  have hfind : m.waiting.find? (·.1 = topic) = none := by
    simpa using fun a b hab => h (a, b) hab
  have herase : (m.waiting ++ [(topic, message)]).eraseP (·.1 = topic) = m.waiting := by
    rw [List.eraseP_append_right _ (by simpa using fun a b hab => h (a, b) hab)]
    simp
  simp [deliver, receive, hfind, herase]

end Mailbox

end Wager
