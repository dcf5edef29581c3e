import LatencyBalancer.Config.Basic
import LatencyBalancer.Latency.Weight
import LatencyBalancer.Server
import LatencyBalancer.Tree.Assembly

/-!
Weight trees from observed latencies.

A server is weighted only while its window holds exactly as many latencies as the configuration
asks for.  When too few servers are, by number or by share, there is no tree: the weights of a
few would draw all the calls.
-/

namespace LatencyBalancer

inductive Build where
  | built (tree : WeightTree Server)
  | insufficient (eligible total : Nat)
deriving Repr

namespace Build

def tree? : Build → Option (WeightTree Server)
  | built tree => some tree
  | insufficient _ _ => none

@[simp]
theorem tree?_built (tree : WeightTree Server) : (built tree).tree? = some tree := rfl

@[simp]
theorem tree?_insufficient (eligible total : Nat) : (insufficient eligible total).tree? = none :=
  rfl

end Build

namespace Config

def Eligible (config : Config) (member : Member) : Prop :=
  member.window.size = config.windowSize

instance (config : Config) (member : Member) : Decidable (config.Eligible member) :=
  inferInstanceAs (Decidable (_ = _))

def eligible (config : Config) (members : List Member) : List Member :=
  members.filter fun member => config.Eligible member

/-- Whether so many eligible servers among so many are too few.  The share of them is compared
as a rounded value, and one that is not comparable is never too small. -/
def TooFew (config : Config) (eligible total : Nat) : Prop :=
  eligible = 0 ∨ eligible < config.minEligible ∨
    Floating.share Format.single eligible total < config.minRatio

instance (config : Config) (eligible total : Nat) : Decidable (config.TooFew eligible total) :=
  inferInstanceAs (Decidable (_ ∨ _))

def weighed (config : Config) (member : Member) : Server × UInt32 :=
  (member.server, Latency.weight member.window.samples config.readTimeout)

def build (config : Config) (members : List Member) : Build :=
  let eligible := config.eligible members
  if config.TooFew eligible.length members.length then
    .insufficient eligible.length members.length
  else
    match WeightTree.assemble (eligible.map config.weighed) with
    | some tree => .built tree
    | none => .insufficient 0 members.length

theorem build_of_tooFew {config : Config} {members : List Member}
    (few : config.TooFew (config.eligible members).length members.length) :
    config.build members = .insufficient (config.eligible members).length members.length := by
  simp only [build]
  exact if_pos few

end Config

end LatencyBalancer
