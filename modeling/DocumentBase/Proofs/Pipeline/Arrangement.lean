import DocumentBase.Pipeline.Assembler
import DocumentBase.Proofs.Sorting

/-!
# The order of stages

Stages are sorted by the ranks of their slots, so a pipeline is the concatenation of what
stands in its slots.
-/

namespace DocumentBase

namespace Slot

def all : List Slot :=
  [.ownership, .select, .sort, .group, .having, .groupSort, .groupCleanup, .project,
    .referenceLength, .lookup, .unwind, .skip, .limit, .count, .out, .merge]

theorem rank_mem_ranks (slot : Slot) : slot.rank ∈ all.map rank := by
  cases slot <;> decide

/-- No two slots have one rank. -/
theorem rank_injective {a b : Slot} (h : a.rank = b.rank) : a = b := by
  cases a <;> cases b <;> first | rfl | cases h

end Slot

namespace Assembler

theorem rank_pairwise : (Slot.all.map Slot.rank).Pairwise (· < ·) := by decide

def inSlot (staged : List (Slot × Stage)) (slot : Slot) : Pipeline :=
  (staged.filter (·.1 = slot)).map Prod.snd

/-- The stages in a slot are those of each part, in their order. -/
theorem inSlot_append (staged more : List (Slot × Stage)) (slot : Slot) :
    inSlot (staged ++ more) slot = inSlot staged slot ++ inSlot more slot := by
  simp [inSlot]

@[simp]
theorem inSlot_nil (slot : Slot) : inSlot [] slot = [] := rfl

theorem inSlot_cons (slot other : Slot) (stage : Stage) (staged : List (Slot × Stage)) :
    inSlot ((slot, stage) :: staged) other =
      if slot = other then stage :: inSlot staged other else inSlot staged other := by
  by_cases h : slot = other <;> simp [inSlot, h]

/-- An arrangement goes through the slots and takes the stages of each. -/
theorem arrange_eq (staged : List (Slot × Stage)) :
    arrange staged = Slot.all.flatMap (inSlot staged) := by
  have hsort := stableSort_key (fun entry : Slot × Stage => entry.1.rank) rank_pairwise staged
    fun entry _ => entry.1.rank_mem_ranks
  rw [arrange, hsort, List.flatMap_map, List.map_flatMap]
  apply List.flatMap_congr
  intro slot _
  rw [inSlot]
  refine congrArg _ (List.filter_congr ?_)
  intro entry _
  rw [decide_eq_decide]
  exact ⟨Slot.rank_injective, congrArg Slot.rank⟩

/-! ### Blocks -/

/-- Stages that are given in blocks, each with its slot. -/
def ofBlocks (blocks : List (Slot × Pipeline)) : List (Slot × Stage) :=
  blocks.flatMap fun block => block.2.map fun stage => (block.1, stage)

theorem ofBlocks_append (blocks more : List (Slot × Pipeline)) :
    ofBlocks (blocks ++ more) = ofBlocks blocks ++ ofBlocks more := by
  simp [ofBlocks]

/-- The stages in a slot are those of the blocks with that slot. -/
theorem inSlot_ofBlocks (blocks : List (Slot × Pipeline)) (slot : Slot) :
    inSlot (ofBlocks blocks) slot = (blocks.filter (·.1 = slot)).flatMap Prod.snd := by
  induction blocks with
  | nil => rfl
  | cons block rest ih =>
      have hblock : inSlot (block.2.map fun stage => (block.1, stage)) slot =
          if block.1 = slot then block.2 else [] := by
        by_cases h : block.1 = slot <;> simp [inSlot, List.filter_map, Function.comp_def, h]
      rw [ofBlocks, List.flatMap_cons, inSlot_append, hblock]
      rw [ofBlocks] at ih
      rw [ih]
      by_cases h : block.1 = slot <;> simp [h]

/-- Blocks are sorted as a whole. -/
theorem arrange_ofBlocks (blocks : List (Slot × Pipeline)) :
    arrange (ofBlocks blocks) =
      (stableSort (fun a b => a.1.rank < b.1.rank) blocks).flatMap Prod.snd := by
  have hsort := stableSort_key (fun block : Slot × Pipeline => block.1.rank) rank_pairwise blocks
    fun block _ => block.1.rank_mem_ranks
  rw [arrange_eq, hsort, List.flatMap_map, List.flatMap_assoc]
  apply List.flatMap_congr
  intro slot _
  rw [inSlot_ofBlocks]
  refine congrArg _ (List.filter_congr ?_)
  intro block _
  rw [decide_eq_decide]
  exact ⟨congrArg Slot.rank, Slot.rank_injective⟩

theorem mem_arrange {staged : List (Slot × Stage)} {stage : Stage} :
    stage ∈ arrange staged ↔ ∃ slot, (slot, stage) ∈ staged := by
  simp [arrange, mem_stableSort]

/-! ### Arranged pipelines -/

/-- Stages put into the order of their slots.  Those of one slot stand as they were given. -/
structure Arranges (stages placed : List (Slot × Stage)) : Prop where
  perm : placed.Perm stages
  order : placed.Pairwise fun earlier later => earlier.1.rank ≤ later.1.rank
  slots : ∀ slot, inSlot placed slot = inSlot stages slot

/-- A pipeline of exactly the given stages in the order of their slots. -/
def IsArranged (stages : List (Slot × Stage)) (p : Pipeline) : Prop :=
  ∃ placed, Arranges stages placed ∧ p = placed.map Prod.snd

/-- Arranged stages stand in the order of their slots, and those of one slot as they were given. -/
theorem isArranged_arrange (stages : List (Slot × Stage)) :
    IsArranged stages (arrange stages) := by
  have hall : ∀ entry ∈ stages, True := fun _ _ => trivial
  have hsorted :=
    stablySorted_stableSort (ranksOn_key fun entry : Slot × Stage => entry.1.rank) hall
  refine ⟨_, ⟨hsorted.perm, ?_, fun slot => ?_⟩, rfl⟩
  · exact hsorted.order.imp fun hbefore => by simpa using hbefore
  · refine congrArg _ (hsorted.tied _ fun earlier _ later _ hearlier hlater => ?_)
    simp only [decide_eq_true_eq] at hearlier hlater
    simp [hearlier, hlater]

/-- A stage of a late slot goes to the end. -/
theorem IsArranged.concat {stages : List (Slot × Stage)} {p : Pipeline} (h : IsArranged stages p)
    {slot : Slot} (hlate : ∀ entry ∈ stages, entry.1.rank ≤ slot.rank) (stage : Stage) :
    IsArranged (stages ++ [(slot, stage)]) (p ++ [stage]) := by
  obtain ⟨placed, harranges, rfl⟩ := h
  refine ⟨placed ++ [(slot, stage)], ⟨harranges.perm.append_right _, ?_, fun other => ?_⟩,
    by rw [List.map_append, List.map_singleton]⟩
  · refine List.pairwise_append.mpr ⟨harranges.order, List.pairwise_singleton _ _, ?_⟩
    intro entry hentry last hlast
    rw [List.mem_singleton.mp hlast]
    exact hlate entry (harranges.perm.mem_iff.mp hentry)
  · rw [inSlot_append, inSlot_append, harranges.slots]

/-- Arranging adds no group stage and takes none away. -/
theorem IsArranged.groupCount {stages : List (Slot × Stage)} {p : Pipeline}
    (h : IsArranged stages p) : p.groupCount = stages.countP (·.2.isGroup) := by
  obtain ⟨placed, harranges, rfl⟩ := h
  rw [Pipeline.groupCount, List.countP_map]
  exact harranges.perm.countP_eq _

/-- The first stage that selects an owner's documents comes before everything else. -/
theorem arrange_cons_ownership (stage : Stage) (staged : List (Slot × Stage)) :
    arrange ((.ownership, stage) :: staged) = stage :: arrange staged := by
  rw [arrange_eq, arrange_eq]
  have hothers : ∀ slot ∈ Slot.all.tail,
      inSlot ((.ownership, stage) :: staged) slot = inSlot staged slot := by
    intro slot hslot
    rw [inSlot_cons, if_neg]
    rintro rfl
    exact absurd hslot (by decide)
  rw [show Slot.all = .ownership :: Slot.all.tail from rfl, List.flatMap_cons,
    List.flatMap_cons, List.flatMap_congr hothers, inSlot_cons, if_pos rfl, List.cons_append]

theorem eq_arrange_of_assemble (a : Assembler) {base : List (Slot × Stage)}
    {purpose : Purpose} {p : Pipeline} (h : a.assemble base purpose = .ok p) :
    p = arrange (a.staged base purpose) := by
  by_cases hgroups : 1 < (arrange (a.staged base purpose)).groupCount
  · simp [assemble, hgroups] at h
  · simpa [assemble, hgroups] using h.symm

end Assembler

end DocumentBase
