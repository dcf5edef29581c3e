import LatencyBalancer.Latency.Window

/-!
Servers and their identity.

A server is its id: two records with the same id are the same server, wherever they say it can
be reached.  `BEq` and `Hashable` follow the id alone.
-/

namespace LatencyBalancer

structure ServerId where
  value : UInt64
deriving DecidableEq, Ord, Repr

namespace ServerId

instance : ToString ServerId where
  toString id := s!"#{id.value}"

/-- Distinct ids never share a hash. -/
instance : Hashable ServerId where
  hash id := id.value

theorem hash_inj {first second : ServerId} : hash first = hash second ↔ first = second := by
  cases first; cases second; simp [hash]

end ServerId

structure Address where
  host : String
  port : UInt16
deriving DecidableEq, Repr

structure Server where
  id : ServerId
  address : Address
deriving Repr

namespace Server

instance : BEq Server where
  beq first second := first.id == second.id

instance : Hashable Server where
  hash server := hash server.id

theorem beq_iff {first second : Server} : (first == second) = true ↔ first.id = second.id :=
  beq_iff_eq (a := first.id) (b := second.id)

theorem hash_eq_of_beq {first second : Server} (same : (first == second) = true) :
    hash first = hash second :=
  congrArg (fun id : ServerId => hash id) (beq_iff.mp same)

end Server

structure Member where
  server : Server
  window : Window
deriving Repr

namespace Member

def new (server : Server) (capacity : Nat) : Member where
  server := server
  window := Window.empty capacity

def record (member : Member) (latencies : List UInt32) : Member :=
  { member with window := member.window.recordAll latencies }

end Member

end LatencyBalancer
