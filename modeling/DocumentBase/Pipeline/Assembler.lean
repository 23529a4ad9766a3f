import DocumentBase.Stage

/-!
# Assembling pipelines

An assembler collects what is asked about groups (key, calculations, count, conditions,
order) together with further stages, and puts all of it into the slots of one pipeline.
There is at most one group stage.
-/

namespace DocumentBase

/-- What a pipeline is assembled for. -/
inductive Purpose where
  /-- A page of rows. -/
  | results
  /-- The number of rows: stages that do not change it are left out. -/
  | counting
deriving DecidableEq, Repr

structure Assembler where
  group : Option GroupSpec
  /-- Whether fields to group by were given. -/
  groupedByFields : Bool
  counted : Bool
  having : Option Criteria
  groupSort : SortSpec
  extra : List (Slot × Stage)
deriving Repr

/-- The output that holds the first row of a group while groups are sorted. -/
def firstRowField : String := "_first"

namespace Assembler

def empty : Assembler := ⟨none, false, false, none, .empty, []⟩

/-- Whether groups, calculations or a count were asked for. -/
def isGrouped (a : Assembler) : Bool :=
  a.group.isSome || a.counted

def hasExtraStages (a : Assembler) : Bool :=
  !a.extra.isEmpty

/-- Groups by fields, which can be asked for once.  Calculations are kept. -/
def groupBy (a : Assembler) (fields : List String) : Outcome Assembler := do
  if a.groupedByFields then throw .alreadyGrouped
  if fields.isEmpty then throw (.validation .noGroupFields)
  fields.forM checkField
  let key := GroupKey.compound fields
  let group := match a.group with
    | some group => { group with key }
    | none => GroupSpec.ofKey key
  return { a with group := some group, groupedByFields := true }

/-- Asks for a calculation, over all rows unless there are groups. -/
def calculate (a : Assembler) (name : String) (accumulator : Accumulator) : Outcome Assembler := do
  checkField name
  return { a with group := some ((a.group.getD (GroupSpec.ofKey .all)).upsert name accumulator) }

def count (a : Assembler) : Assembler :=
  { a with counted := true }

def addHaving (a : Assembler) (criteria : Criteria) : Assembler :=
  let having := match a.having with
    | some existing => existing.and criteria
    | none => criteria
  { a with having := some having }

def sortGroups (a : Assembler) (field : String) (direction : Direction) : Assembler :=
  { a with groupSort := a.groupSort.push field direction }

def push (a : Assembler) (slot : Slot) (stage : Stage) : Assembler :=
  { a with extra := a.extra ++ [(slot, stage)] }

/-- The group with the count that was asked for. -/
def effectiveGroup (a : Assembler) : Option GroupSpec :=
  if a.counted then some ((a.group.getD (GroupSpec.ofKey .all)).upsert "count" .count)
  else a.group

/-- Where a field is found in the rows that stand for groups, and whether this is inside the first
row of the group. -/
def retarget (g : GroupSpec) (field : String) : String × Bool :=
  let inKey := match g.key with
    | .compound names => names.contains field
    | _ => false
  if inKey then (Item.idField ++ "." ++ field, false)
  else if field = Item.idField || g.hasOutput field then (field, false)
  else (firstRowField ++ "." ++ field, true)

/-- The stages for groups: the group itself, the condition, the order, and the removal of the first
row if only the order needed it. -/
def groupStages (a : Assembler) (purpose : Purpose) (g : GroupSpec) : List (Slot × Stage) :=
  let targets : List ((String × Bool) × Direction) := match purpose with
    | .results => a.groupSort.keys.map fun (field, direction) => (retarget g field, direction)
    | .counting => []
  let keepsFirst := targets.any fun target => target.1.2
  let sort := targets.foldl (fun sort target => sort.push target.1.1 target.2) SortSpec.empty
  let g := if keepsFirst then g.upsert firstRowField .firstRow else g
  [(.group, .group g)]
    ++ (a.having.map fun criteria => (Slot.having, Stage.select criteria)).toList
    ++ (if sort.isEmpty then [] else [(.groupSort, .sort sort)])
    ++ (if keepsFirst then [(.groupCleanup, .project (.drop [firstRowField]))] else [])

/-- Stages in the order of their slots; in one slot they keep their order. -/
def arrange (staged : List (Slot × Stage)) : Pipeline :=
  (stableSort (fun a b => a.1.rank < b.1.rank) staged).map Prod.snd

/-- The further stages that serve a purpose. -/
def extraFor (a : Assembler) (purpose : Purpose) : List (Slot × Stage) :=
  a.extra.filter fun entry => purpose = .results || entry.1.affectsRows

/-- All stages in no order yet: those given, the further ones, and those for groups. -/
def staged (a : Assembler) (base : List (Slot × Stage)) (purpose : Purpose) :
    List (Slot × Stage) :=
  base ++ a.extraFor purpose ++
    match a.effectiveGroup with
    | some g => a.groupStages purpose g
    | none => []

/-- The pipeline, unless it has several group stages. -/
def assemble (a : Assembler) (base : List (Slot × Stage)) (purpose : Purpose) :
    Outcome Pipeline :=
  let pipeline := arrange (a.staged base purpose)
  if 1 < pipeline.groupCount then .error (.tooManyGroups pipeline.groupCount) else .ok pipeline

end Assembler

end DocumentBase
