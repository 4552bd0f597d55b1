import Unimatrix.Graph.Terminal
import Unimatrix.Lib.F64

/-!
# The penalty of a superseded entry

Model of `GraphPenaltyParams` and `graph_penalty_with` of `graph.rs`.
-/

namespace Unimatrix

open TypedRelationGraph

/-- `HOP_DECAY_CLAMP_FLOOR`. -/
def hopDecayClampFloor {F : Type} [F64 F] : F := 0.10

/-- `GraphPenaltyParams`. -/
structure GraphPenaltyParams (F : Type) where
  orphan : F
  cleanReplacement : F
  hopDecay : F
  partialSupersession : F
  deadEnd : F
  fallback : F
  maxTraversalDepth : Nat

/-- `GraphPenaltyParams::default`. -/
def GraphPenaltyParams.default {F : Type} [F64 F] : GraphPenaltyParams F where
  orphan := 0.75
  cleanReplacement := 0.40
  hopDecay := 0.60
  partialSupersession := 0.60
  deadEnd := 0.65
  fallback := 0.70
  maxTraversalDepth := Unimatrix.maxTraversalDepth

section

variable {F : Type} [F64 F]

/-- The decay of a chain that is `d` long. The ceiling wins where it is below the floor. -/
def hopDecayPenalty (params : GraphPenaltyParams F) (d : Nat) : F :=
  if params.cleanReplacement ≤ hopDecayClampFloor then params.cleanReplacement
  else F64.clamp (params.cleanReplacement * F64.powi params.hopDecay (d - 1)) hopDecayClampFloor
    params.cleanReplacement

/-- What follows the two guards of `graph_penalty_with`. -/
def chainPenalty (entry : EntryRecord) (nodeIdx : Nat) (graph : TypedRelationGraph) (o : EdgeOrder)
    (entries : List EntryRecord) (params : GraphPenaltyParams F) : F :=
  let outgoingCount := (graph.edgesOfType o nodeIdx .supersedes .outgoing).length
  if entry.status = .deprecated ∧ outgoingCount = 0 then params.orphan
  else if dfsActiveReachable nodeIdx graph o entries params.maxTraversalDepth = false then params.deadEnd
  else if 1 < outgoingCount then params.partialSupersession
  else
    match bfsChainDepth nodeIdx graph o entries params.maxTraversalDepth with
    | none => params.deadEnd
    | some d =>
      if d = 1 then params.cleanReplacement
      else if 2 ≤ d then hopDecayPenalty params d
      else params.deadEnd

/-- `graph_penalty_with`. -/
def graphPenaltyWith (nodeId : Nat) (graph : TypedRelationGraph) (o : EdgeOrder)
    (entries : List EntryRecord) (params : GraphPenaltyParams F) : F :=
  match graph.nodeIndexFor nodeId with
  | none => 1
  | some nodeIdx =>
    match entryById nodeId entries with
    | none => 1
    | some entry => chainPenalty entry nodeIdx graph o entries params

/-- A longer chain is not penalised less than a replacement that is one supersession away. -/
theorem hopDecayPenalty_le (params : GraphPenaltyParams F) (d : Nat) :
    hopDecayPenalty params d ≤ params.cleanReplacement := by
  unfold hopDecayPenalty
  split
  · exact le_refl _
  · rename_i hfloor
    exact F64.clamp_le _ (lt_of_not_ge hfloor).le

end

end Unimatrix
