import LatencyBalancer.Random.Uniform
import LatencyBalancer.Selection.Reports

/-!
Uniform choice among the candidates, for when the weights cannot be used.

Servers that were neither tried nor reported come first, then those that were not tried, then
any.  Only the best tier that has a member is drawn from.
-/

namespace LatencyBalancer.Selection

def untried (tried : List ServerId) (candidates : List Server) : List Server :=
  candidates.filter fun server => server.id ∉ tried

def fresh (tried : List ServerId) (reports : Reports) (candidates : List Server) : List Server :=
  candidates.filter fun server => server.id ∉ tried ∧ server.id ∉ reports

/-- The best tier that has a member; empty only when there are no candidates. -/
def preferred (tried : List ServerId) (reports : Reports) (candidates : List Server) :
    List Server :=
  if fresh tried reports candidates ≠ [] then fresh tried reports candidates
  else if untried tried candidates ≠ [] then untried tried candidates
  else candidates

def chooseFallback? (tried : List ServerId) (reports : Reports) (candidates : List Server)
    (tape : WordTape) : Option (Option Server × WordTape) :=
  Random.choose? (preferred tried reports candidates) tape

theorem mem_untried {server : Server} {tried : List ServerId} {candidates : List Server} :
    server ∈ untried tried candidates ↔ server ∈ candidates ∧ server.id ∉ tried := by
  simp [untried]

theorem mem_fresh {server : Server} {tried : List ServerId} {reports : Reports}
    {candidates : List Server} :
    server ∈ fresh tried reports candidates ↔
      server ∈ candidates ∧ server.id ∉ tried ∧ server.id ∉ reports := by
  simp [fresh]

theorem preferred_eq_nil_iff {tried : List ServerId} {reports : Reports}
    {candidates : List Server} : preferred tried reports candidates = [] ↔ candidates = [] := by
  constructor
  · intro empty
    unfold preferred at empty
    split at empty
    · contradiction
    · split at empty
      · contradiction
      · exact empty
  · intro none
    simp [none, preferred, fresh, untried]

end LatencyBalancer.Selection
