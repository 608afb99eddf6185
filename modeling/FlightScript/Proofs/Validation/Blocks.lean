import FlightScript.Proofs.Validation.Scope
import Mathlib.Data.List.Induction

/-!
# Blocks

A block goes from the statement that opens it to the first one after it that closes
its kind, but for the blocks in between. `Settled outer statements` says this of
statements in a block of the kind `outer`, or in none: each block that they open is
closed by them, and none of them closes the block around them. Statements that would
close a block of another kind are stray, and change nothing.

The blocks that some statements leave open are the ones that only settled statements
follow, up to the next of them (`LeavesOpen`). They are what validation keeps in its
scope (`leavesOpen_iff`).
-/

namespace FlightScript

namespace Statement

def opens? (s : Statement) : Option Block :=
  match s.command with
  | .ifThen _ => some .ifThen
  | .whileDo _ => some .whileDo
  | _ => none

def closes? (s : Statement) : Option Block :=
  match s.command with
  | .endIf => some .ifThen
  | .endWhile => some .whileDo
  | _ => none

end Statement

namespace Block

/-- The statements in a block of some kind, or in none, that leave it as it is. -/
inductive Settled : Option Block → List Statement → Prop where
  | nil {outer : Option Block} : Settled outer []
  | skip {outer : Option Block} {s : Statement} {rest : List Statement} (hopens : s.opens? = none)
      (hcloses : ∀ b, s.closes? = some b → outer ≠ some b) (hrest : Settled outer rest) :
      Settled outer (s :: rest)
  | block {outer : Option Block} {s t : Statement} {b : Block} {inner rest : List Statement}
      (hopens : s.opens? = some b) (hinner : Settled (some b) inner)
      (hcloses : t.closes? = some b) (hrest : Settled outer rest) :
      Settled outer (s :: inner ++ t :: rest)

/-- The blocks that statements leave open, each with the statement that opens it, in the
order in which they are opened. -/
inductive LeavesOpen : List Statement → List (Block × Statement) → Prop where
  | settled {statements : List Statement} (h : Settled none statements) :
      LeavesOpen statements []
  | opened {statements inner : List Statement} {blocks : List (Block × Statement)} {b : Block}
      {s : Statement} (h : LeavesOpen statements blocks) (hopens : s.opens? = some b)
      (hinner : Settled (some b) inner) :
      LeavesOpen (statements ++ s :: inner) (blocks ++ [(b, s)])

/-- The statements leave open a block of a kind, and no other block in it. -/
def IsInnermost (b : Block) (statements : List Statement) : Prop :=
  ∃ blocks s, LeavesOpen statements (blocks ++ [(b, s)])

theorem Settled.append {outer : Option Block} {l m : List Statement} (hl : Settled outer l)
    (hm : Settled outer m) : Settled outer (l ++ m) := by
  induction hl with
  | nil => exact hm
  | skip hopens hcloses _ ih => exact .skip hopens hcloses (ih hm)
  | block hopens hinner hcloses _ _ ih =>
      rw [List.append_assoc, List.cons_append]
      exact .block hopens hinner hcloses (ih hm)

theorem LeavesOpen.append {l m : List Statement} {blocks : List (Block × Statement)}
    (hl : LeavesOpen l blocks) (hm : Settled (blocks.getLast?.map Prod.fst) m) :
    LeavesOpen (l ++ m) blocks := by
  cases hl with
  | settled h => exact .settled (h.append hm)
  | opened h hopens hinner =>
      rw [List.getLast?_concat] at hm
      rw [List.append_assoc, List.cons_append]
      exact .opened h hopens (hinner.append hm)

theorem LeavesOpen.exists_inner {l : List Statement} {blocks : List (Block × Statement)}
    {b : Block} {s : Statement} (h : LeavesOpen l (blocks ++ [(b, s)])) :
    ∃ front inner, l = front ++ s :: inner ∧ s.opens? = some b ∧ LeavesOpen front blocks ∧
      Settled (some b) inner := by
  generalize hblocks : blocks ++ [(b, s)] = all at h
  cases h with
  | settled _ => simp at hblocks
  | opened hfront hopens hinner =>
      obtain ⟨rfl, hlast⟩ := List.append_inj' hblocks rfl
      cases hlast
      exact ⟨_, _, rfl, hopens, hfront, hinner⟩

end Block

namespace Scope

open Block

variable {scope : Scope} {s : Statement} {b : Block}

theorem afterAll_append (scope : Scope) (l m : List Statement) :
    scope.afterAll (l ++ m) = (scope.afterAll l).afterAll m :=
  List.foldl_append

theorem isInside_iff : scope.isInside b ↔ scope.blocks.head?.map Prod.fst = some b :=
  decide_eq_true_iff

theorem blocks_after_of_opens (h : s.opens? = some b) :
    (scope.after s).blocks = (b, s) :: scope.blocks := by
  rw [Statement.opens?] at h
  rw [after]
  split at h <;> simp_all

theorem blocks_after_of_closes (h : s.closes? = some b) :
    (scope.after s).blocks = if scope.isInside b then scope.blocks.tail else scope.blocks := by
  have hclose : (scope.close b).blocks =
      if scope.isInside b then scope.blocks.tail else scope.blocks := by
    rw [close]
    split <;> rfl
  rw [← hclose]
  rw [Statement.closes?] at h
  rw [after]
  split at h <;> simp_all

theorem blocks_after_of_skip (hopens : s.opens? = none)
    (hcloses : ∀ b, s.closes? = some b → scope.blocks.head?.map Prod.fst ≠ some b) :
    (scope.after s).blocks = scope.blocks := by
  cases hs : s.closes? with
  | some b =>
      rw [blocks_after_of_closes hs, if_neg (mt isInside_iff.1 (hcloses b hs))]
  | none =>
      rw [Statement.opens?] at hopens
      rw [Statement.closes?] at hs
      rw [after]
      cases hc : s.command <;> simp_all

/-- Settled statements leave the open blocks as they are. -/
theorem blocks_afterAll_of_settled {l : List Statement}
    (h : Settled (scope.blocks.head?.map Prod.fst) l) :
    (scope.afterAll l).blocks = scope.blocks := by
  generalize houter : scope.blocks.head?.map Prod.fst = outer at h
  induction h generalizing scope with
  | nil => rfl
  | skip hopens hcloses _ ih =>
      subst houter
      have hs := blocks_after_of_skip hopens hcloses
      rw [afterAll_cons, ih (by rw [hs]), hs]
  | @block outer s t b inner rest hopens _ hcloses _ ihinner ihrest =>
      have hopened : (scope.after s).blocks = (b, s) :: scope.blocks := blocks_after_of_opens hopens
      have hinner : ((scope.after s).afterAll inner).blocks = (b, s) :: scope.blocks := by
        rw [ihinner (by rw [hopened]; rfl), hopened]
      have hclosed : (((scope.after s).afterAll inner).after t).blocks = scope.blocks := by
        rw [blocks_after_of_closes hcloses, if_pos (isInside_iff.2 (by rw [hinner]; rfl)), hinner]
        rfl
      rw [List.cons_append, afterAll_cons, afterAll_append, afterAll_cons,
        ihrest (by rw [hclosed, houter]), hclosed]

theorem blocks_of_leavesOpen {l : List Statement} {blocks : List (Block × Statement)}
    (h : LeavesOpen l blocks) : (empty.afterAll l).blocks = blocks.reverse := by
  induction h with
  | settled h => exact blocks_afterAll_of_settled h
  | @opened l inner blocks b s _ hopens hinner ih =>
      have hopened : ((empty.afterAll l).after s).blocks = (b, s) :: blocks.reverse := by
        rw [blocks_after_of_opens hopens, ih]
      rw [afterAll_append, afterAll_cons, blocks_afterAll_of_settled (by rwa [hopened]), hopened,
        List.reverse_concat]

/-- Validation keeps the blocks that are left open. -/
theorem leavesOpen_afterAll (l : List Statement) :
    LeavesOpen l (empty.afterAll l).blocks.reverse := by
  induction l using List.reverseRecOn with
  | nil => exact .settled .nil
  | append_singleton l s ih =>
      rw [afterAll_append, afterAll_cons, afterAll_nil]
      cases hopens : s.opens? with
      | some b =>
          rw [blocks_after_of_opens hopens, List.reverse_cons]
          exact .opened ih hopens .nil
      | none =>
          by_cases hmatch : ∃ b, s.closes? = some b ∧ (empty.afterAll l).isInside b
          · -- the innermost block is closed, and settled in what is around it
            obtain ⟨b, hcloses, hinside⟩ := hmatch
            rw [blocks_after_of_closes hcloses, if_pos hinside]
            obtain ⟨⟨b', t⟩, hhead, rfl⟩ := Option.map_eq_some_iff.1 (isInside_iff.1 hinside)
            obtain ⟨blocks, hblocks⟩ := List.head?_eq_some_iff.1 hhead
            rw [hblocks, List.reverse_cons] at ih
            obtain ⟨front, inner, rfl, hopened, hfront, hinner⟩ := ih.exists_inner
            rw [hblocks, List.tail_cons, List.append_assoc]
            exact hfront.append (.block hopened hinner hcloses .nil)
          · have hskip : ∀ b, s.closes? = some b →
                (empty.afterAll l).blocks.head?.map Prod.fst ≠ some b :=
              fun b hb hhead => hmatch ⟨b, hb, isInside_iff.2 hhead⟩
            rw [blocks_after_of_skip hopens hskip]
            refine ih.append (.skip hopens ?_ .nil)
            rwa [List.getLast?_reverse]

theorem leavesOpen_iff {l : List Statement} {blocks : List (Block × Statement)} :
    LeavesOpen l blocks ↔ blocks = (empty.afterAll l).blocks.reverse := by
  constructor
  · intro h
    rw [blocks_of_leavesOpen h, List.reverse_reverse]
  · rintro rfl
    exact leavesOpen_afterAll l

theorem isInnermost_iff {l : List Statement} :
    b.IsInnermost l ↔ (empty.afterAll l).isInside b := by
  rw [isInside_iff, Option.map_eq_some_iff]
  constructor
  · rintro ⟨blocks, s, h⟩
    rw [blocks_of_leavesOpen h, List.reverse_concat]
    exact ⟨(b, s), rfl, rfl⟩
  · rintro ⟨⟨b', s⟩, hhead, rfl⟩
    obtain ⟨rest, hblocks⟩ := List.head?_eq_some_iff.1 hhead
    have hopen := leavesOpen_afterAll l
    rw [hblocks, List.reverse_cons] at hopen
    exact ⟨rest.reverse, s, hopen⟩

instance (b : Block) (l : List Statement) : Decidable (b.IsInnermost l) :=
  decidable_of_iff _ isInnermost_iff.symm

end Scope

end FlightScript
