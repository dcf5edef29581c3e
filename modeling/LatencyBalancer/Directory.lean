/-!
The list of servers that a naming service announces.

An update replaces the whole list.  A snapshot is a value of its own, so one taken earlier keeps
what it held.
-/

namespace LatencyBalancer

universe u

structure Directory (Entry : Type u) where
  entries : List Entry
deriving DecidableEq, Repr

namespace Directory

variable {Entry : Type u}

def empty : Directory Entry where
  entries := []

/-- Announce other entries in place of all the present ones. -/
def update (_ : Directory Entry) (entries : List Entry) : Directory Entry where
  entries := entries

def snapshot (directory : Directory Entry) : List Entry :=
  directory.entries

end Directory

end LatencyBalancer
