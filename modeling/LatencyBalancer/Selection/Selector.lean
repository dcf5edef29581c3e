import LatencyBalancer.Publication
import LatencyBalancer.Selection.Fallback
import LatencyBalancer.Tree.Pick

/-!
The choice of a server for one call.

The published tree is picked from a bounded number of times.  A pick counts only when its server
is a candidate and was neither tried nor reported; otherwise, and when there is no tree or it
cannot be read, the choice falls back to the candidates themselves.
-/

namespace LatencyBalancer

inductive FallbackReason where
  | noTree
  /-- Every pick hit a server that must not be used. -/
  | retriesExhausted
  /-- The tree could not be read. -/
  | samplingFault
deriving DecidableEq, Repr

inductive Selection where
  | weighted (server : Server)
  | fallback (server : Server) (reason : FallbackReason)
deriving Repr

namespace Selection

def server : Selection → Server
  | weighted server => server
  | fallback server _ => server

def isWeighted : Selection → Bool
  | weighted _ => true
  | fallback _ _ => false

end Selection

structure Selector where
  tree : Option (WeightTree Server)
  reports : Reports
  /-- How often the tree is picked from; at least once, whatever is asked for. -/
  attempts : Nat
deriving Repr

namespace Selector

def Acceptable (selector : Selector) (candidates : List Server) (tried : List ServerId)
    (server : Server) : Prop :=
  server.id ∉ tried ∧ server.id ∉ selector.reports ∧ server.id ∈ candidates.map Server.id

instance (selector : Selector) (candidates : List Server) (tried : List ServerId)
    (server : Server) : Decidable (selector.Acceptable candidates tried server) :=
  inferInstanceAs (Decidable (_ ∧ _))

/-- Pick until a server is acceptable, the picks are used up or one fails. -/
def pickAcceptable (tree : WeightTree Server) (acceptable : Server → Bool) :
    Nat → WordTape → Option (Except FallbackReason Server × WordTape)
  | 0, tape => some (.error .retriesExhausted, tape)
  | attempts + 1, tape =>
      match tree.pick tape with
      | none => none
      | some (.error _, rest) => some (.error .samplingFault, rest)
      | some (.ok server, rest) =>
          if acceptable server then some (.ok server, rest)
          else pickAcceptable tree acceptable attempts rest

def weightedPick (selector : Selector) (candidates : List Server) (tried : List ServerId)
    (tape : WordTape) : Option (Except FallbackReason Server × WordTape) :=
  match selector.tree with
  | none => some (.error .noTree, tape)
  | some tree =>
      pickAcceptable tree (fun server => selector.Acceptable candidates tried server)
        (max selector.attempts 1) tape

/-- The server for a call; there is none only when there are no candidates. -/
def select (selector : Selector) (candidates : List Server) (tried : List ServerId)
    (tape : WordTape) : Option (Option Selection × WordTape) :=
  if candidates.isEmpty then some (none, tape)
  else
    match selector.weightedPick candidates tried tape with
    | none => none
    | some (.ok server, rest) => some (some (.weighted server), rest)
    | some (.error reason, rest) =>
        (Selection.chooseFallback? tried selector.reports candidates rest).map
          fun (server, rest) => (server.map (.fallback · reason), rest)

end Selector

end LatencyBalancer
