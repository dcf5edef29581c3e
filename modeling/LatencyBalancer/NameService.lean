import LatencyBalancer.Directory

/-!
The naming service that an engine asks for its servers.

Servers are listed by their place in a pool.  A lookup may fail, and it counts also when it does.
-/

namespace LatencyBalancer

structure LookupFailure where
  reason? : Option String
deriving DecidableEq, Repr

structure NameService where
  listing : Directory Nat
  /-- What the next lookups fail with, one each. -/
  failures : List LookupFailure
  lookups : Nat
deriving DecidableEq, Repr

namespace NameService

def ofList (places : List Nat) : NameService where
  listing := ⟨places⟩
  failures := []
  lookups := 0

def relist (service : NameService) (places : List Nat) : NameService :=
  { service with listing := service.listing.update places }

/-- Let one more lookup fail, after those that are to fail already. -/
def failNext (service : NameService) (failure : LookupFailure) : NameService :=
  { service with failures := service.failures ++ [failure] }

def lookup (service : NameService) : Except LookupFailure (List Nat) × NameService :=
  let asked := { service with lookups := service.lookups + 1 }
  match service.failures with
  | [] => (.ok service.listing.snapshot, asked)
  | failure :: later => (.error failure, { asked with failures := later })

@[simp]
theorem lookups_lookup (service : NameService) :
    service.lookup.2.lookups = service.lookups + 1 := by
  unfold lookup
  split <;> rfl

@[simp]
theorem listing_lookup (service : NameService) : service.lookup.2.listing = service.listing := by
  unfold lookup
  split <;> rfl

end NameService

end LatencyBalancer
