import CellScript.Tree.Builder

namespace CellScript

/-!
# Nesting

Every opening bracket goes one level down and every closing one comes back up.
How deep a list of brackets ends, and whether it ever comes up further than it
went down, decides what the builder of trees makes of it.
-/

/-! ## Depth -/

namespace Nesting

/-- How many levels further down a list of items ends than it begins. -/
def depth {α : Type} (weight : α → Int) : List α → Int
  | [] => 0
  | item :: rest => weight item + depth weight rest

/-- No part of a list that begins at its front comes up further than it went down. -/
def Level {α : Type} (weight : α → Int) (items : List α) : Prop :=
  ∀ earlier, earlier <+: items → 0 ≤ depth weight earlier

/-- An item goes down, and the items after it never come back up from there. -/
def Unmatched {α : Type} (weight : α → Int) (item : α) (after : List α) : Prop :=
  weight item = 1 ∧ Level weight after

/-- An item is the last of a list that is unmatched. -/
def LastUnmatched {α : Type} (weight : α → Int) (item : α) (after : List α) : Prop :=
  Unmatched weight item after ∧
    ∀ between later rest, after = between ++ later :: rest → ¬ Unmatched weight later rest

section Depth

variable {α : Type} {weight : α → Int}

@[simp]
theorem depth_nil : depth weight [] = 0 := rfl

@[simp]
theorem depth_cons
    (item : α)
    (rest : List α) :
    depth weight (item :: rest) = weight item + depth weight rest := rfl

/-- The levels of two lists add up. -/
@[simp]
theorem depth_append
    (first second : List α) :
    depth weight (first ++ second) = depth weight first + depth weight second := by
  induction first with
  | nil => simp
  | cons item rest inductionHypothesis => simp [inductionHypothesis, Int.add_assoc]

/-- Items that go nowhere can be left out. -/
theorem depth_filterMap
    {β : Type}
    {view : α → Option β}
    {weightOfView : β → Int}
    (viewed : ∀ item, weight item = ((view item).map weightOfView).getD 0)
    (items : List α) :
    depth weightOfView (items.filterMap view) = depth weight items := by
  induction items with
  | nil => rfl
  | cons item rest inductionHypothesis =>
      rw [List.filterMap_cons, depth_cons, ← inductionHypothesis, viewed item]
      cases view item <;> simp

/-- A part at the front of a level list is level. -/
theorem Level.of_prefix
    {earlier items : List α}
    (level : Level weight items)
    (isEarlier : earlier <+: items) :
    Level weight earlier :=
  fun _ isPrefix => level _ (isPrefix.trans isEarlier)

/-- A level list ends no further up than it begins. -/
theorem Level.depth_nonneg
    {items : List α}
    (level : Level weight items) :
    0 ≤ depth weight items :=
  level items (List.prefix_refl items)

/-- A list stays level when one more item comes up no further than it went down. -/
theorem level_append_singleton
    {items : List α}
    {item : α} :
    Level weight (items ++ [item]) ↔
      Level weight items ∧ 0 ≤ depth weight items + weight item := by
  constructor
  · intro level
    refine ⟨level.of_prefix (List.prefix_append items [item]), ?_⟩
    simpa using level.depth_nonneg
  · rintro ⟨level, nonneg⟩ earlier isPrefix
    rcases List.prefix_concat_iff.mp isPrefix with rfl | isEarlier
    · simpa using nonneg
    · exact level earlier isEarlier

/-- Leaving out items that go nowhere keeps a list level or not. -/
theorem level_filterMap
    {β : Type}
    {view : α → Option β}
    {weightOfView : β → Int}
    (viewed : ∀ item, weight item = ((view item).map weightOfView).getD 0)
    {items : List α} :
    Level weightOfView (items.filterMap view) ↔ Level weight items := by
  constructor
  · intro level earlier isPrefix
    rw [← depth_filterMap viewed]
    exact level _ (isPrefix.filterMap view)
  · intro level earlier isPrefix
    obtain ⟨whole, isWhole, rfl⟩ := List.prefix_filterMap_iff.mp isPrefix
    rw [depth_filterMap viewed]
    exact level whole isWhole

/-- Leaving out items that go nowhere keeps the last unmatched item the last. -/
theorem LastUnmatched.filterMap
    {β : Type}
    {view : α → Option β}
    {weightOfView : β → Int}
    (viewed : ∀ item, weight item = ((view item).map weightOfView).getD 0)
    {item : α}
    {after : List α}
    {itemView : β}
    (itemViewed : view item = some itemView)
    (lastUnmatched : LastUnmatched weight item after) :
    LastUnmatched weightOfView itemView (after.filterMap view) := by
  have weight_of_viewed {other : α} {otherView : β} (seen : view other = some otherView) :
      weightOfView otherView = weight other := by
    rw [viewed, seen]
    rfl
  obtain ⟨⟨opens, level⟩, isLast⟩ := lastUnmatched
  refine ⟨⟨?_, (level_filterMap viewed).mpr level⟩, ?_⟩
  · rw [weight_of_viewed itemViewed, opens]
  · rintro between laterView rest split ⟨laterOpens, restLevel⟩
    obtain ⟨first, second, rfl, -, secondViews⟩ := List.filterMap_eq_append_iff.mp split
    obtain ⟨dropped, later, whole, rfl, -, laterViewed, rfl⟩ :=
      List.filterMap_eq_cons_iff.mp secondViews
    refine isLast (first ++ dropped) later whole (by simp) ⟨?_, ?_⟩
    · rw [← weight_of_viewed laterViewed, laterOpens]
    · exact (level_filterMap viewed).mp restLevel

/-- Where a list first comes up too far, it was back at its beginning. -/
theorem exists_first_stray
    {items : List α}
    (atMostOne : ∀ item, -1 ≤ weight item)
    (stray : ¬ Level weight items) :
    ∃ before item after,
      items = before ++ item :: after ∧
      Level weight before ∧
      depth weight before = 0 ∧
      weight item = -1 := by
  -- The induction takes items off the end, so it runs over the list reversed.
  obtain ⟨reversed, rfl⟩ : ∃ reversed, items = reversed.reverse :=
    ⟨items.reverse, items.reverse_reverse.symm⟩
  induction reversed with
  | nil =>
      refine absurd (fun earlier isPrefix => Int.le_of_eq ?_) stray
      rw [List.prefix_nil.mp isPrefix, depth_nil]
  | cons item reversed inductionHypothesis =>
      rw [List.reverse_cons] at stray ⊢
      by_cases level : Level weight reversed.reverse
      · have atLeast := level.depth_nonneg
        have atMost := atMostOne item
        have below : ¬ 0 ≤ depth weight reversed.reverse + weight item :=
          fun nonneg => stray (level_append_singleton.mpr ⟨level, nonneg⟩)
        exact ⟨reversed.reverse, item, [], rfl, level, by omega, by omega⟩
      · obtain ⟨before, first, after, split, facts⟩ := inductionHypothesis level
        exact ⟨before, first, after ++ [item], by simp [split], facts⟩

/--
A list that ends further down than it begins has a last unmatched item.  The
induction also says of a list without one that none of its ends goes down.
-/
private theorem ends_or_lastUnmatched
    (atMostOne : ∀ item, weight item ≤ 1)
    (items : List α) :
    (∀ ending, ending <:+ items → depth weight ending ≤ 0) ∨
      ∃ before item after,
        items = before ++ item :: after ∧
        weight item = 1 ∧
        depth weight after = 0 ∧
        ∀ ending, ending <:+ after → depth weight ending ≤ 0 := by
  induction items with
  | nil =>
      left
      intro ending isSuffix
      exact Int.le_of_eq (by rw [List.suffix_nil.mp isSuffix, depth_nil])
  | cons item rest inductionHypothesis =>
      rcases inductionHypothesis with ends | ⟨before, last, after, rfl, facts⟩
      · by_cases down : 0 < depth weight (item :: rest)
        · have atMost := atMostOne item
          have restEnds := ends rest (List.suffix_refl rest)
          rw [depth_cons] at down
          exact .inr ⟨[], item, rest, rfl, by omega, by omega, ends⟩
        · left
          intro ending isSuffix
          rcases List.suffix_cons_iff.mp isSuffix with rfl | isSuffix
          · omega
          · exact ends ending isSuffix
      · exact .inr ⟨item :: before, last, after, rfl, facts⟩

/-- A list that ends further down than it begins has a last unmatched item. -/
theorem exists_last_unmatched
    {items : List α}
    (atMostOne : ∀ item, weight item ≤ 1)
    (down : 0 < depth weight items) :
    ∃ before item after,
      items = before ++ item :: after ∧
      depth weight after = 0 ∧
      LastUnmatched weight item after := by
  rcases ends_or_lastUnmatched atMostOne items with
    ends | ⟨before, item, after, rfl, opens, even, ends⟩
  · exact absurd (ends items (List.suffix_refl items)) (by omega)
  · refine ⟨before, item, after, rfl, even, ⟨opens, ?_⟩, ?_⟩
    · rintro earlier ⟨later, rfl⟩
      have laterEnds := ends later (List.suffix_append earlier later)
      rw [depth_append] at even
      omega
    · rintro between later rest rfl ⟨laterOpens, restLevel⟩
      have laterEnds := ends (later :: rest) (List.suffix_append between (later :: rest))
      have restNonneg := restLevel.depth_nonneg
      rw [depth_cons] at laterEnds
      omega

end Depth

end Nesting

/-! ## Tokens -/

namespace Token

/-- How many levels a token goes down. -/
def weight (token : Token) : Int :=
  if token.isOpening then 1 else if token.isClosing then -1 else 0

theorem weight_of_isOpening
    {token : Token}
    (opening : token.isOpening = true) :
    token.weight = 1 := by
  simp [weight, opening]

theorem weight_of_isClosing
    {token : Token}
    (opening : token.isOpening = false)
    (closing : token.isClosing = true) :
    token.weight = -1 := by
  simp [weight, opening, closing]

theorem weight_of_other
    {token : Token}
    (opening : token.isOpening = false)
    (closing : token.isClosing = false) :
    token.weight = 0 := by
  simp [weight, opening, closing]

/-- A token goes down by one level at most. -/
theorem weight_le_one
    (token : Token) :
    token.weight ≤ 1 := by
  unfold weight
  split
  · exact Int.le_refl 1
  · split <;> omega

theorem neg_one_le_weight
    (token : Token) :
    -1 ≤ token.weight := by
  unfold weight
  split
  · omega
  · split <;> omega

/-- Only opening brackets go down. -/
theorem isOpening_of_weight
    {token : Token}
    (down : token.weight = 1) :
    token.isOpening = true := by
  rw [weight] at down
  split at down
  · assumption
  · split at down <;> omega

theorem isClosing_of_weight
    {token : Token}
    (up : token.weight = -1) :
    token.isOpening = false ∧ token.isClosing = true := by
  rw [weight] at up
  split at up
  · omega
  · rename_i opening
    split at up
    · rename_i closing
      exact ⟨by simpa using opening, closing⟩
    · omega

end Token

/-! ## Building -/

namespace Builder

open Nesting

/-- Building goes on from where the first token has led. -/
theorem run_cons
    {builder next : Builder}
    {token : Token}
    (rest : List Token)
    (stepped : builder.step token = .ok next) :
    (token :: rest).foldlM step builder = rest.foldlM step next := by
  rw [List.foldlM_cons, stepped]
  rfl

/-- Building goes on from where the tokens so far have led. -/
theorem run_append
    {builder next : Builder}
    {tokens : List Token}
    (rest : List Token)
    (ran : tokens.foldlM step builder = .ok next) :
    (tokens ++ rest).foldlM step builder = rest.foldlM step next := by
  rw [List.foldlM_append, ran]
  rfl

/--
A token that does not come up through the open blocks below it leaves them
alone, and the blocks above them change in number as it says.
-/
private theorem step_above
    {builder : Builder}
    {above below : List (Token × List Node)}
    {token : Token}
    (split : builder.enclosing = above ++ below)
    (enough : 0 ≤ above.length + token.weight) :
    ∃ next aboveNext,
      builder.step token = .ok next ∧
      next.enclosing = aboveNext ++ below ∧
      (aboveNext.length : Int) = above.length + token.weight := by
  by_cases opening : token.isOpening = true
  · refine ⟨builder.openBlock token, (token, builder.members) :: above, ?_, ?_, ?_⟩
    · simp [step, opening]
    · simp [openBlock, split]
    · simp [Token.weight_of_isOpening opening]
  · rw [Bool.not_eq_true] at opening
    by_cases closing : token.isClosing = true
    · rw [Token.weight_of_isClosing opening closing] at enough ⊢
      obtain ⟨⟨bracket, siblings⟩, above, rfl⟩ : ∃ innermost rest, above = innermost :: rest :=
        List.exists_cons_of_ne_nil (by rintro rfl; simp at enough)
      refine ⟨{ members := Node.block builder.members.reverse :: siblings
                enclosing := above ++ below }, above, ?_, rfl, ?_⟩
      · simp only [step, opening, closing, closeBlock, split, List.cons_append,
          Bool.false_eq_true, if_false, if_true]
      · rw [List.length_cons]
        omega
    · rw [Bool.not_eq_true] at closing
      refine ⟨builder.add (Node.leaf (Leaf.ofLexeme token.lexeme)), above, ?_, split, ?_⟩
      · simp [step, opening, closing]
      · simp [Token.weight_of_other opening closing]

/-- The same for a list of tokens of which no beginning comes up that far. -/
theorem run_above
    (builder : Builder)
    (above below : List (Token × List Node))
    (tokens : List Token)
    (split : builder.enclosing = above ++ below)
    (enough : ∀ earlier, earlier <+: tokens → 0 ≤ above.length + depth Token.weight earlier) :
    ∃ next aboveNext,
      tokens.foldlM step builder = .ok next ∧
      next.enclosing = aboveNext ++ below ∧
      (aboveNext.length : Int) = above.length + depth Token.weight tokens := by
  -- The blocks above change from token to token; those below are never touched.
  induction tokens generalizing builder above with
  | nil => exact ⟨builder, above, rfl, split, by simp⟩
  | cons token rest inductionHypothesis =>
      have enoughHere := enough [token] ⟨rest, rfl⟩
      rw [depth_cons, depth_nil, Int.add_zero] at enoughHere
      obtain ⟨middle, aboveMiddle, stepped, middleSplit, middleLength⟩ :=
        step_above split enoughHere
      obtain ⟨next, aboveNext, ran, nextSplit, nextLength⟩ :=
        inductionHypothesis middle aboveMiddle middleSplit fun earlier isPrefix => by
          have enoughThere := enough (token :: earlier) (List.cons_prefix_cons.mpr ⟨rfl, isPrefix⟩)
          rw [depth_cons] at enoughThere
          omega
      refine ⟨next, aboveNext, ?_, nextSplit, ?_⟩
      · rw [run_cons rest stepped, ran]
      · rw [nextLength, middleLength, depth_cons]
        omega

/-- Level tokens are built without a fault, and as many blocks are open as they go down. -/
theorem run_level
    {tokens : List Token}
    (level : Level Token.weight tokens) :
    ∃ next,
      tokens.foldlM step start = .ok next ∧
      (next.enclosing.length : Int) = depth Token.weight tokens := by
  obtain ⟨next, above, ran, split, length⟩ :=
    run_above start [] [] tokens rfl (by simpa [Level] using level)
  refine ⟨next, ran, ?_⟩
  rw [split, List.append_nil, length]
  simp

end Builder

namespace Node

open Nesting

/-- A closing bracket that has no block to close is a structural mismatch. -/
theorem ofTokens_of_stray
    {before after : List Token}
    {bracket : Token}
    (level : Level Token.weight before)
    (even : depth Token.weight before = 0)
    (stray : bracket.weight = -1) :
    ofTokens (before ++ bracket :: after) =
      .error (.structuralMismatch bracket.position (bracket.lexeme.toList.headD ')')) := by
  obtain ⟨opening, closing⟩ := Token.isClosing_of_weight stray
  obtain ⟨builder, ran, length⟩ := Builder.run_level level
  have noneOpen : builder.enclosing = [] := by
    rw [← List.length_eq_zero_iff]
    omega
  have failed :
      builder.step bracket =
        .error (.structuralMismatch bracket.position (bracket.lexeme.toList.headD ')')) := by
    simp [Builder.step, opening, closing, Builder.closeBlock, noneOpen]
  rw [ofTokens, Builder.run_append _ ran, List.foldlM_cons, failed]
  rfl

/-- A bracket that is never closed is reported if all blocks opened after it are closed. -/
theorem ofTokens_of_unmatched
    {before after : List Token}
    {bracket : Token}
    (level : Level Token.weight before)
    (even : depth Token.weight after = 0)
    (unmatched : Unmatched Token.weight bracket after) :
    ofTokens (before ++ bracket :: after) =
      .error (.unclosedBlock bracket.position bracket.lexeme) := by
  obtain ⟨opens, afterLevel⟩ := unmatched
  have opening := Token.isOpening_of_weight opens
  obtain ⟨builder, ran, -⟩ := Builder.run_level level
  have opened : builder.step bracket = .ok (builder.openBlock bracket) := by
    simp [Builder.step, opening]
  obtain ⟨last, above, ranAfter, split, length⟩ :=
    Builder.run_above (builder.openBlock bracket) [] _ after rfl
      (by simpa [Level] using afterLevel)
  have noneAbove : above = [] := by
    rw [← List.length_eq_zero_iff]
    rw [even] at length
    simpa using length
  rw [ofTokens, Builder.run_append _ ran, Builder.run_cons _ opened, ranAfter]
  change last.finish = _
  rw [Builder.finish, split, noneAbove]
  rfl

/-- Tokens that come back to the level where they began build a tree. -/
theorem ofTokens_of_level
    {tokens : List Token}
    (level : Level Token.weight tokens)
    (even : depth Token.weight tokens = 0) :
    ∃ members, ofTokens tokens = .ok members := by
  obtain ⟨last, ran, length⟩ := Builder.run_level level
  have noneOpen : last.enclosing = [] := by
    rw [← List.length_eq_zero_iff]
    omega
  refine ⟨last.members.reverse, ?_⟩
  rw [ofTokens, ran]
  change last.finish = _
  rw [Builder.finish, noneOpen]

end Node

end CellScript
