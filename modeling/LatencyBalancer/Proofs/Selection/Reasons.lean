import LatencyBalancer.Proofs.Selection.Kinds

/-!
# Why a selection falls back

A selection lacks a tree exactly when none is published, and it meets a fault only when a pick
from the published tree did.  Either way it finds a server of the best tier of the candidates, if
there are any.
-/

namespace LatencyBalancer.Selector

variable {selector : Selector} {candidates : List Server} {tried : List ServerId}
  {tape rest : WordTape} {selection : Selection}

theorem ne_nil_of_select
    (selected : selector.select candidates tried tape = some (some selection, rest)) :
    candidates ≠ [] := by
  rintro rfl
  simp [select] at selected

theorem noTree_iff (selected : selector.select candidates tried tape = some (some selection, rest)) :
    (∃ server, selection = .fallback server .noTree) ↔ selector.tree = none := by
  rw [exists_fallback_iff (ne_nil_of_select selected) selected]
  simp [Defers]

theorem ne_samplingFault
    (readable : ∀ tree, selector.tree = some tree →
      ∀ before error after, tree.pick before ≠ some (.error error, after))
    (selected : selector.select candidates tried tape = some (some selection, rest))
    (server : Server) : selection ≠ .fallback server .samplingFault := by
  rintro rfl
  obtain ⟨_, defers, _⟩ := (select_eq_fallback_iff (ne_nil_of_select selected)).mp selected
  obtain ⟨tree, _, before, error, published, _, _, failed⟩ := defers
  exact readable tree published before error _ failed

theorem bestTier_of_select
    (selected : selector.select candidates tried tape = some (some selection, rest)) :
    Selection.BestTier tried selector.reports candidates selection.server := by
  rcases select_eq_some selected with
    ⟨_, none, _⟩ | ⟨server, _, picked, same⟩ | ⟨reason, between, chosen, _, _, drawn, same⟩
  · contradiction
  · obtain rfl := Option.some.inj same
    exact bestTier_of_acceptable (weightedPick_ok picked).1
  · obtain ⟨server, found, rfl⟩ := Option.map_eq_some_iff.mp same.symm
    exact (Selection.chooseFallback?_eq_some drawn).2 server found

end LatencyBalancer.Selector
