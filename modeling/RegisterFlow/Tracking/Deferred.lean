import RegisterFlow.Tracking.Resolve

/-!
# Deferred stores

Once every block is raised, the values that merges waited for are known, and the stores that were
deferred can be made.
-/

namespace RegisterFlow

/-- The outcome of tracking a function. -/
structure Summary where
  merges : Nat
  drained : Nat
  deriving DecidableEq, Repr

namespace Raise

/-- Makes a deferred store, with the definition that its block has now. -/
def settle (graph : FlowGraph) (store : DeferredStore) : Raise Unit := do
  match (← definitionIn? graph store.location store.block).bind Definition.value? with
  | some value => storeConverted store.location store.block store.slot value
  | none => throw (.unmetStore store.location store.block store.slot)

/--
Makes all deferred stores in the order in which they were deferred, and gives their number. No store
waits any longer afterwards, also when one of them fails.
-/
def settleAll (graph : FlowGraph) : Raise Nat := do
  let waiting := (← get).tracker.deferred
  update ({ · with deferred := [] })
  waiting.forM (settle graph)
  update fun tracker => { tracker with drained := tracker.drained + waiting.length }
  count (Statistics.countDrained waiting.length)
  return waiting.length

/-- Ends the tracking of a function. -/
def conclude (graph : FlowGraph) : Raise Summary := do
  discard <| settleAll graph
  count Statistics.countFunction
  let tracker := (← get).tracker
  return { merges := tracker.merges.length, drained := tracker.drained }

end Raise

end RegisterFlow
