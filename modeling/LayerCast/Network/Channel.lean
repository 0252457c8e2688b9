import LayerCast.Network.Packet

/-!
# `LayerCast.Network.Channel`: two queues between a client and the network

A channel carries interests one way and replies the other. The network side may close either
direction by itself; what is on its way then still arrives.
-/

set_option autoImplicit false

namespace LayerCast

/-- What a client finds when it looks for a reply. -/
inductive Received where
  | reply (r : Reply)
  /-- There is none, and there may be one later. -/
  | pending
  /-- There will be none. -/
  | closed

/-- The two queues, the oldest packet first. -/
structure Channel where
  interests : List Interest := []
  replies : List Reply := []
  interestsOpen : Bool := true
  repliesOpen : Bool := true

namespace Channel

/-- The client sends an interest. Tells whether the network still takes interests. -/
def express (c : Channel) (i : Interest) : Bool × Channel :=
  if c.interestsOpen then (true, { c with interests := c.interests ++ [i] }) else (false, c)

/-- The client looks for a reply. -/
def receive (c : Channel) : Received × Channel :=
  match c.replies with
  | r :: rest => (.reply r, { c with replies := rest })
  | [] => (if c.repliesOpen then .pending else .closed, c)

/-- The network takes the next interest. -/
def nextInterest? (c : Channel) : Option (Interest × Channel) :=
  match c.interests with
  | i :: rest => if c.interestsOpen then some (i, { c with interests := rest }) else none
  | [] => none

/-- The network sends a reply, unless it has closed that direction. -/
def send? (c : Channel) (r : Reply) : Option Channel :=
  if c.repliesOpen then some { c with replies := c.replies ++ [r] } else none

/-- The network takes no more interests, and forgets those on their way. -/
def closeInterests (c : Channel) : Channel := { c with interests := [], interestsOpen := false }

/-- The network sends no more replies. -/
def closeReplies (c : Channel) : Channel := { c with repliesOpen := false }

end Channel

end LayerCast
