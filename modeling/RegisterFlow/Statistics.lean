/-!
# Statistics

Counts of what tracking did, over any number of functions.
-/

namespace RegisterFlow

/-- Counts of what tracking did. -/
structure Statistics where
  functionsTracked : Nat := 0
  definitionsRecorded : Nat := 0
  localHits : Nat := 0
  predecessorWalks : Nat := 0
  promotions : Nat := 0
  slotsAllocated : Nat := 0
  deferredRecorded : Nat := 0
  deferredDrained : Nat := 0
  flagsDerived : Nat := 0
  flagsSet : Nat := 0
  pendingDropped : Nat := 0
  /-- The number of derived flags per instruction family, in the order of the families' names. -/
  flagFamilies : List (String × Nat) := []
  deriving DecidableEq, Repr, Inhabited

namespace Statistics

/-- Adds one to the count of a name in an ordered list of counts. -/
def countName (name : String) : List (String × Nat) → List (String × Nat)
  | [] => [(name, 1)]
  | (first, count) :: rest =>
    if name = first then (first, count + 1) :: rest
    else if name < first then (name, 1) :: (first, count) :: rest
    else (first, count) :: countName name rest

/-- Counts a function whose tracking was completed. -/
def countFunction (statistics : Statistics) : Statistics :=
  { statistics with functionsTracked := statistics.functionsTracked + 1 }

/-- Counts a definition. -/
def countDefinition (statistics : Statistics) : Statistics :=
  { statistics with definitionsRecorded := statistics.definitionsRecorded + 1 }

/-- Counts a read that its own block answers. -/
def countLocalHit (statistics : Statistics) : Statistics :=
  { statistics with localHits := statistics.localHits + 1 }

/-- Counts a read for which the predecessors are searched. -/
def countPredecessorWalk (statistics : Statistics) : Statistics :=
  { statistics with predecessorWalks := statistics.predecessorWalks + 1 }

/-- Counts a merge, which takes a new slot. -/
def countPromotion (statistics : Statistics) : Statistics :=
  { statistics with
    promotions := statistics.promotions + 1
    slotsAllocated := statistics.slotsAllocated + 1 }

/-- Counts a store that has to wait for its value. -/
def countDeferred (statistics : Statistics) : Statistics :=
  { statistics with deferredRecorded := statistics.deferredRecorded + 1 }

/-- Counts deferred stores that were completed. -/
def countDrained (count : Nat) (statistics : Statistics) : Statistics :=
  { statistics with deferredDrained := statistics.deferredDrained + count }

/-- Counts a flag derived from an instruction of a family. -/
def countFlagDerived (family : String) (statistics : Statistics) : Statistics :=
  { statistics with
    flagsDerived := statistics.flagsDerived + 1
    flagFamilies := countName family statistics.flagFamilies }

/-- Counts a flag that was given a constant value. -/
def countFlagSet (statistics : Statistics) : Statistics :=
  { statistics with flagsSet := statistics.flagsSet + 1 }

/-- Counts pending definitions that were dropped. -/
def countPendingDropped (count : Nat) (statistics : Statistics) : Statistics :=
  { statistics with pendingDropped := statistics.pendingDropped + count }

/-- The lines that show the counts; families are listed only if there are any. -/
def lines (statistics : Statistics) : List String :=
  ["Raising Session Statistics:",
    "  Functions tracked: " ++ toString statistics.functionsTracked,
    "  Definitions recorded: " ++ toString statistics.definitionsRecorded,
    "  Local hits: " ++ toString statistics.localHits,
    "  Predecessor walks: " ++ toString statistics.predecessorWalks,
    "  Merges promoted: " ++ toString statistics.promotions,
    "  Slots allocated: " ++ toString statistics.slotsAllocated,
    "  Deferred stores: " ++ toString statistics.deferredRecorded ++ " recorded, " ++
      toString statistics.deferredDrained ++ " drained",
    "  Flags derived: " ++ toString statistics.flagsDerived,
    "  Flags set: " ++ toString statistics.flagsSet,
    "  Pending records dropped: " ++ toString statistics.pendingDropped] ++
    match statistics.flagFamilies with
    | [] => []
    | families =>
      "  Flag derivations by family:" ::
        families.map fun (family, count) => "    " ++ family ++ ": " ++ toString count

/-- The text that shows the counts; every line ends with a line feed. -/
def text (statistics : Statistics) : String :=
  String.join (statistics.lines.map (· ++ "\n"))

end Statistics

end RegisterFlow
