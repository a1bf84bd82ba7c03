import Mathlib.Data.Char
import Mathlib.Data.List.Lex
import YapInference.Lib.Value

/-!
# The import cycle check

`linting/python/imports/import_cycles.py`. A set is a list here, in the order the set yields its
elements. `visit` calls itself, so it has a bound on the depth of its calls; a `KeyError` of one of
the dictionaries is `none` as well.
-/

namespace YapInference.ImportCycles

open Py

/-! ## Modules -/

/-- A path under `src/`, without its `.py`. No part of it has a dot, or it could not be imported. -/
structure SourcePath where
  dirs : List Text
  stem : Text
  dotless : ∀ part ∈ dirs ++ [stem], '.' ∉ part

/-- The two nodes of a syntax tree that import. -/
inductive ImportNode where
  | importNames (names : List Text)
  | importFrom (level : Nat) (module : Option Text)

/-- A file, and what `ast.walk` finds in it. -/
structure SourceFile where
  path : SourcePath
  nodes : List ImportNode

/-- `ModuleFile`. -/
structure ModuleFile where
  file : SourceFile
  module : Text

/-- The name `_collect_modules` gives a file. -/
def moduleName (internalRoot : Text) (path : SourcePath) : Text :=
  let parts := path.dirs ++ [path.stem]
  let parts := if parts.getLast? = some "__init__".toList then parts.dropLast else parts
  if parts.isEmpty then internalRoot else internalRoot ++ '.' :: join ['.'] parts

/-- `_collect_modules`. -/
def collectModules (internalRoot : Text) (files : List SourceFile) : List ModuleFile :=
  files.map fun file => ⟨file, moduleName internalRoot file.path⟩

/-- `_build_known_modules`. -/
def buildKnownModules (moduleFiles : List ModuleFile) : List Text :=
  let known := moduleFiles.map ModuleFile.module
  known ++ known.flatMap fun module =>
    let parts := module.splitOn '.'
    (List.range' 1 (parts.length - 1)).map fun idx => join ['.'] (parts.take idx)

/-- `candidate.rsplit(".", 1)[0]` where there is a dot. -/
def beforeLastDot (candidate : Text) : Text := (candidate.rdropWhile (· != '.')).dropLast

theorem length_beforeLastDot {candidate : Text} (h : '.' ∈ candidate) :
    (beforeLastDot candidate).length < candidate.length := by
  have hle := (List.rdropWhile_prefix (· != '.') candidate).length_le
  have hpos : 0 < candidate.length := List.length_pos_of_mem h
  rw [beforeLastDot, List.length_dropLast]
  omega

/-- `_nearest_known_module`. -/
def nearestKnownModule (knownModules : List Text) (candidate : Text) : Option Text :=
  if candidate.isEmpty then none
  else if knownModules.contains candidate then some candidate
  else if '.' ∈ candidate then nearestKnownModule knownModules (beforeLastDot candidate)
  else none
termination_by candidate.length
decreasing_by
  rename_i h
  exact length_beforeLastDot h

/-- `_resolve_import_from`. -/
def resolveImportFrom (currentModule : Text) (level : Nat) (target : Option Text) : Text :=
  let parts := currentModule.splitOn '.'
  let target := target.getD []
  if level ≤ 0 then target
  else
    let base := if level ≤ parts.length then parts.take (parts.length - level) else []
    join ['.'] (if target.isEmpty then base else base ++ target.splitOn '.')

/-! ## Edges -/

/-- `dict[str, set[str]]`. -/
abbrev Edges (α : Type) := Dict α (List α)

/-- `edges[module].add(resolved)`. -/
def addEdge {α : Type} [DecidableEq α] (edges : Edges α) (module resolved : α) : Edges α :=
  let targets := (edges.get? module).getD []
  edges.set module (if targets.contains resolved then targets else targets ++ [resolved])

/-- What an import is of, if it is of the package. -/
def edgeTarget (internalRoot : Text) (knownModules : List Text) (target : Text) : Option Text :=
  if startsWith target (internalRoot ++ ['.']) || target == internalRoot then
    nearestKnownModule knownModules target
  else none

/-- The targets of one node. -/
def nodeTargets (internalRoot : Text) (knownModules : List Text) (module : Text) :
    ImportNode → List Text
  | .importNames names => names.filterMap (edgeTarget internalRoot knownModules)
  | .importFrom level target =>
      let name := if 0 < level then resolveImportFrom module level target else target.getD []
      (edgeTarget internalRoot knownModules name).toList

/-- `_parse_import_edges`. -/
def parseImportEdges (internalRoot : Text) (moduleFiles : List ModuleFile)
    (knownModules : List Text) : Edges Text :=
  moduleFiles.foldl (fun edges entry =>
    (entry.file.nodes.flatMap (nodeTargets internalRoot knownModules entry.module)).foldl
      (fun edges resolved => addEdge edges entry.module resolved) edges) []

/-! ## Strongly connected components -/

variable {α : Type} [DecidableEq α]

/-- The variables that the calls of `visit` share. -/
structure SccState (α : Type) where
  index : Nat
  /-- The last one pushed comes first. -/
  stack : List α
  onStack : List α
  indexByNode : Dict α Nat
  lowlinkByNode : Dict α Nat
  components : List (List α)

namespace SccState

def init : SccState α := ⟨0, [], [], [], [], []⟩

/-- `node not in index_by_node`. -/
def isNew (s : SccState α) (node : α) : Bool := (s.indexByNode.get? node).isNone

/-- What `visit` does before its loop. -/
def enter (s : SccState α) (node : α) : SccState α :=
  { s with
    indexByNode := s.indexByNode.set node s.index
    lowlinkByNode := s.lowlinkByNode.set node s.index
    index := s.index + 1
    stack := node :: s.stack
    onStack := node :: s.onStack }

/-- `lowlink_by_node[node] = min(lowlink_by_node[node], bound)`. -/
def lower (s : SccState α) (node : α) (bound : Option Nat) : Option (SccState α) :=
  (s.lowlinkByNode.get? node).bind fun lowlink => bound.map fun bound =>
    { s with lowlinkByNode := s.lowlinkByNode.set node (min lowlink bound) }

/-- The loop that pops a component: the rest of the stack, of the set, and the component. -/
def popComponent (node : α) : List α → List α → List α → Option (List α × List α × List α)
  | [], onStack, component => some ([], onStack, component)
  | popped :: stack, onStack, component =>
      if popped ∈ onStack then
        let onStack := onStack.filter (· ≠ popped)
        if popped = node then some (stack, onStack, component ++ [popped])
        else popComponent node stack onStack (component ++ [popped])
      else none

/-- What `visit` does after its loop. -/
def finish (s : SccState α) (node : α) : Option (SccState α) :=
  (s.lowlinkByNode.get? node).bind fun lowlink => (s.indexByNode.get? node).bind fun index =>
    if lowlink = index then
      (popComponent node s.stack s.onStack []).map fun popped =>
        { s with
          stack := popped.1
          onStack := popped.2.1
          components := s.components ++ [popped.2.2] }
    else some s

/-- The loop over the neighbors. -/
def scan (visit : α → SccState α → Option (SccState α)) (node : α) :
    List α → SccState α → Option (SccState α)
  | [], s => some s
  | neighbor :: rest, s =>
      (if s.isNew neighbor then
        (visit neighbor s).bind fun s => s.lower node (s.lowlinkByNode.get? neighbor)
      else if neighbor ∈ s.onStack then s.lower node (s.indexByNode.get? neighbor)
      else some s).bind (scan visit node rest)

end SccState

/-- `edges.get(node, set())`. -/
def neighborsOf (edges : Edges α) (node : α) : List α := (edges.get? node).getD []

/-- `visit`. -/
def visit (edges : Edges α) : Nat → α → SccState α → Option (SccState α)
  | 0, _, _ => none
  | depth + 1, node, s =>
      (SccState.scan (visit edges depth) node (neighborsOf edges node) (s.enter node)).bind
        fun s => s.finish node

/-- The loop over the modules. -/
def visitModules (edges : Edges α) (depth : Nat) : List α → SccState α → Option (SccState α)
  | [], s => some s
  | module :: modules, s =>
      (if s.isNew module then visit edges depth module s else some s).bind
        (visitModules edges depth modules)

/-- `_find_strongly_connected_components`. -/
def findStronglyConnectedComponents [LE α] [DecidableLE α] (edges : Edges α) (modules : List α)
    (depth : Nat) : Option (List (List α)) :=
  let sorted := modules.mergeSort fun a b => decide (a ≤ b)
  (visitModules edges depth sorted .init).map SccState.components

/-! ## The check -/

/-- `cycle_components`. -/
def cycleComponents (components : List (List α)) : List (List α) :=
  components.filter fun component => decide (1 < component.length)

/-- `self_cycles`. -/
def selfCycles (edges : Edges α) : List α :=
  (edges.filter fun entry => entry.2.contains entry.1).map Prod.fst

/-- `main`: the exit code. Without files, `src/` is missing. -/
def main (internalRoot : Text) (files : Option (List SourceFile)) (depth : Nat) : Option Nat :=
  match files with
  | none => some 1
  | some files =>
      let moduleFiles := collectModules internalRoot files
      let knownModules := buildKnownModules moduleFiles
      let graphEdges := parseImportEdges internalRoot moduleFiles knownModules
      let moduleNames := (moduleFiles.map ModuleFile.module).dedup
      (findStronglyConnectedComponents graphEdges moduleNames depth).map
        fun components =>
          if (cycleComponents components).isEmpty && (selfCycles graphEdges).isEmpty then 0 else 1

end YapInference.ImportCycles
