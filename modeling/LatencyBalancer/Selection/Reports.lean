import LatencyBalancer.Server

/-!
Servers reported to be failing since the last rebuild.

A report is about an id.  Reporting a server again changes nothing, and all reports are dropped
together.
-/

namespace LatencyBalancer

structure Reports where
  ids : List ServerId
deriving DecidableEq, Repr

namespace Reports

def empty : Reports where
  ids := []

instance : EmptyCollection Reports where
  emptyCollection := empty

instance : Membership ServerId Reports where
  mem reports id := id ∈ reports.ids

instance (id : ServerId) (reports : Reports) : Decidable (id ∈ reports) :=
  inferInstanceAs (Decidable (id ∈ reports.ids))

def insert (reports : Reports) (id : ServerId) : Reports where
  ids := reports.ids.insert id

def insertAll (reports : Reports) (ids : List ServerId) : Reports :=
  ids.foldl insert reports

/-- Report servers; only their ids count. -/
def mark (reports : Reports) (servers : List Server) : Reports :=
  reports.insertAll (servers.map Server.id)

def size (reports : Reports) : Nat :=
  reports.ids.length

def isEmpty (reports : Reports) : Bool :=
  reports.ids.isEmpty

theorem mem_iff {id : ServerId} {reports : Reports} : id ∈ reports ↔ id ∈ reports.ids := Iff.rfl

@[simp]
theorem not_mem_empty (id : ServerId) : id ∉ (∅ : Reports) := by
  simp [mem_iff, EmptyCollection.emptyCollection, empty]

@[simp]
theorem mem_insert {id reported : ServerId} {reports : Reports} :
    id ∈ reports.insert reported ↔ id = reported ∨ id ∈ reports := by
  simp [mem_iff, insert, List.mem_insert_iff]

@[simp]
theorem mem_insertAll {id : ServerId} {reports : Reports} {ids : List ServerId} :
    id ∈ reports.insertAll ids ↔ id ∈ ids ∨ id ∈ reports := by
  induction ids generalizing reports with
  | nil => simp [insertAll]
  | cons first later inductionHypothesis =>
      simp only [insertAll, List.foldl_cons] at inductionHypothesis ⊢
      rw [inductionHypothesis, mem_insert, List.mem_cons]
      simp only [or_left_comm, or_assoc]

@[simp]
theorem mem_mark {id : ServerId} {reports : Reports} {servers : List Server} :
    id ∈ reports.mark servers ↔ id ∈ servers.map Server.id ∨ id ∈ reports :=
  mem_insertAll

end Reports

end LatencyBalancer
