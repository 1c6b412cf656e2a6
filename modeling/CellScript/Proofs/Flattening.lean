import CellScript.Proofs.Nesting

namespace CellScript

/-!
# Flattening

A tree is written out again as the marks of its blocks and its leaves, in order.  The
builder of trees and flattening are inverse to each other: a list of balanced tokens
makes the one tree that is flattened to the marks of these tokens.
-/

/-! ## Marks -/

/-- What a token means for a tree. -/
inductive Mark where
  /-- A block begins. -/
  | opening
  /-- A block ends. -/
  | closing
  | leaf (value : Leaf)
  deriving Repr, DecidableEq

/-- What a token means for a tree; only brackets that open or close are no leaves. -/
def Token.mark (token : Token) : Mark :=
  if token.isOpening then .opening
  else if token.isClosing then .closing
  else .leaf (Leaf.ofLexeme token.lexeme)

namespace Node

mutual

/-- The marks of a node, in order. -/
def flatten : Node → List Mark
  | .leaf value => [.leaf value]
  | .block members => .opening :: (flattenAll members ++ [.closing])

/-- The marks of members, member by member. -/
def flattenAll : List Node → List Mark
  | [] => []
  | member :: rest => flatten member ++ flattenAll rest

end

@[simp]
theorem flattenAll_nil : flattenAll [] = [] := rfl

/-- Nodes in a row are flattened one after the other. -/
@[simp]
theorem flattenAll_append
    (front back : List Node) :
    flattenAll (front ++ back) = flattenAll front ++ flattenAll back := by
  induction front with
  | nil => rfl
  | cons member rest inductionHypothesis =>
      rw [List.cons_append, flattenAll, flattenAll, inductionHypothesis, List.append_assoc]

@[simp]
theorem flattenAll_singleton
    (node : Node) :
    flattenAll [node] = node.flatten := by
  rw [flattenAll, flattenAll_nil, List.append_nil]

/-! ## Trees are told apart by their marks -/

/-- No node begins with the end of a block. -/
private theorem flatten_append_ne_closing
    (node : Node)
    (rest otherRest : List Mark) :
    node.flatten ++ rest ≠ .closing :: otherRest := by
  cases node with
  | leaf value => rw [flatten]; nofun
  | block members => rw [flatten]; nofun

mutual

/-- Where the marks of two nodes begin one list, the nodes are the same and so is what follows. -/
private theorem flatten_cancel
    {rest otherRest : List Mark} :
    ∀ {node other : Node},
      node.flatten ++ rest = other.flatten ++ otherRest → node = other ∧ rest = otherRest
  | .leaf value, .leaf other, same => by
      rw [flatten, flatten, List.singleton_append, List.singleton_append] at same
      obtain ⟨sameLeaf, sameRest⟩ := List.cons.inj same
      exact ⟨by rw [Mark.leaf.inj sameLeaf], sameRest⟩
  | .block members, .block others, same => by
      rw [flatten, flatten, List.cons_append, List.cons_append, List.append_assoc,
        List.append_assoc] at same
      obtain ⟨sameMembers, sameRest⟩ := flattenAll_cancel (List.cons.inj same).2
      exact ⟨by rw [sameMembers], sameRest⟩
  | .leaf value, .block others, same => by
      rw [flatten, flatten] at same
      cases same
  | .block members, .leaf other, same => by
      rw [flatten, flatten] at same
      cases same

/-- The same for the members of a block, up to the end of that block. -/
private theorem flattenAll_cancel
    {rest otherRest : List Mark} :
    ∀ {members others : List Node},
      flattenAll members ++ .closing :: rest = flattenAll others ++ .closing :: otherRest →
      members = others ∧ rest = otherRest
  | [], [], same => ⟨rfl, (List.cons.inj same).2⟩
  | member :: members, other :: others, same => by
      rw [flattenAll, flattenAll, List.append_assoc, List.append_assoc] at same
      obtain ⟨sameMember, sameMore⟩ := flatten_cancel same
      obtain ⟨sameMembers, sameRest⟩ := flattenAll_cancel sameMore
      exact ⟨by rw [sameMember, sameMembers], sameRest⟩
  | [], other :: others, same => by
      rw [flattenAll, flattenAll, List.append_assoc] at same
      exact absurd same.symm (flatten_append_ne_closing other _ _)
  | member :: members, [], same => by
      rw [flattenAll, flattenAll, List.append_assoc] at same
      exact absurd same (flatten_append_ne_closing member _ _)

end

/-- Members are told apart by their marks. -/
theorem flattenAll_inj
    {members others : List Node}
    (same : flattenAll members = flattenAll others) :
    members = others := by
  have ended : flattenAll members ++ [.closing] = flattenAll others ++ [.closing] := by
    rw [same]
  exact (flattenAll_cancel ended).1

end Node

/-! ## What the builder has taken -/

namespace Builder

open Node

/-- The marks in front of the innermost open block, with the one that opens it. -/
def marksAround : List (Token × List Node) → List Mark
  | [] => []
  | (_, siblings) :: enclosing =>
      marksAround enclosing ++ (flattenAll siblings.reverse ++ [.opening])

/-- The marks of all that a builder has taken. -/
def marks (builder : Builder) : List Mark :=
  marksAround builder.enclosing ++ flattenAll builder.members.reverse

/-- A token that is taken adds its mark. -/
theorem marks_of_step
    {builder next : Builder}
    {token : Token}
    (stepped : builder.step token = .ok next) :
    next.marks = builder.marks ++ [token.mark] := by
  by_cases opening : token.isOpening = true
  · rw [step, if_pos opening] at stepped
    cases stepped
    simp [marks, openBlock, marksAround, Token.mark, opening]
  · by_cases closing : token.isClosing = true
    · rw [step, if_neg opening, if_pos closing, closeBlock] at stepped
      split at stepped
      · cases stepped
      · rename_i bracket siblings enclosing isOpen
        cases stepped
        simp [marks, isOpen, marksAround, Token.mark, opening, closing, flatten]
    · rw [step, if_neg opening, if_neg closing] at stepped
      cases stepped
      simp [marks, add, Token.mark, opening, closing, flatten]

/-- Tokens that are taken add their marks, in order. -/
theorem marks_of_run
    {builder last : Builder}
    {tokens : List Token}
    (ran : tokens.foldlM step builder = .ok last) :
    last.marks = builder.marks ++ tokens.map Token.mark := by
  induction tokens generalizing builder with
  | nil =>
      cases ran
      rw [List.map_nil, List.append_nil]
  | cons token rest inductionHypothesis =>
      cases stepped : builder.step token with
      | error fault =>
          rw [List.foldlM_cons, stepped] at ran
          cases ran
      | ok next =>
          rw [run_cons rest stepped] at ran
          rw [inductionHypothesis ran, marks_of_step stepped, List.map_cons, List.append_assoc,
            List.singleton_append]

/-- What is built in the end has the marks of all that was taken. -/
theorem flattenAll_of_finish
    {builder : Builder}
    {members : List Node}
    (finished : builder.finish = .ok members) :
    flattenAll members = builder.marks := by
  rw [finish] at finished
  split at finished
  · rename_i noneOpen
    cases finished
    rw [marks, noneOpen, marksAround, List.nil_append]
  · cases finished

end Builder

/-! ## Building and flattening -/

namespace Node

open Nesting

/-- The tree that tokens make is flattened to their marks. -/
theorem flattenAll_of_ofTokens
    {tokens : List Token}
    {members : List Node}
    (built : ofTokens tokens = .ok members) :
    flattenAll members = tokens.map Token.mark := by
  rw [ofTokens] at built
  cases ran : tokens.foldlM Builder.step Builder.start with
  | error fault =>
      rw [ran] at built
      cases built
  | ok last =>
      rw [ran] at built
      rw [Builder.flattenAll_of_finish built, Builder.marks_of_run ran]
      rfl

/-- If some bracket closes nothing, the first such bracket is reported. -/
theorem ofTokens_of_not_level
    {tokens : List Token}
    (stray : ¬ Level Token.weight tokens) :
    ∃ before bracket after,
      tokens = before ++ bracket :: after ∧
      bracket.isClosing = true ∧
      Level Token.weight before ∧
      depth Token.weight before = 0 ∧
      ofTokens tokens =
        .error (.structuralMismatch bracket.position (bracket.lexeme.toList.headD ')')) := by
  obtain ⟨before, bracket, after, rfl, level, even, up⟩ :=
    exists_first_stray Token.neg_one_le_weight stray
  exact ⟨before, bracket, after, rfl, (Token.isClosing_of_weight up).2, level, even,
    ofTokens_of_stray level even up⟩

/-- If some blocks stay open, the last bracket without a partner is reported. -/
theorem ofTokens_of_unclosed
    {tokens : List Token}
    (level : Level Token.weight tokens)
    (unclosed : 0 < depth Token.weight tokens) :
    ∃ before bracket after,
      tokens = before ++ bracket :: after ∧
      bracket.isOpening = true ∧
      LastUnmatched Token.weight bracket after ∧
      ofTokens tokens = .error (.unclosedBlock bracket.position bracket.lexeme) := by
  obtain ⟨before, bracket, after, rfl, even, lastUnmatched⟩ :=
    exists_last_unmatched Token.weight_le_one unclosed
  exact ⟨before, bracket, after, rfl, Token.isOpening_of_weight lastUnmatched.1.1, lastUnmatched,
    ofTokens_of_unmatched (level.of_prefix (List.prefix_append before _)) even lastUnmatched.1⟩

/--
The builder inverts flattening.  Balanced tokens make the one tree that is flattened to
their marks, so other marks make another tree.  Of tokens that are not balanced, the
first closing bracket without an opening one is reported, or else the last opening
bracket without a closing one.
-/
theorem ofTokens_inverts_flattening
    (tokens : List Token) :
    (Level Token.weight tokens →
      depth Token.weight tokens = 0 →
      ∃ members,
        ofTokens tokens = .ok members ∧
        flattenAll members = tokens.map Token.mark ∧
        (∀ others, flattenAll others = tokens.map Token.mark → others = members) ∧
        ∀ otherTokens,
          ofTokens otherTokens = .ok members →
          otherTokens.map Token.mark = tokens.map Token.mark) ∧
    (¬ Level Token.weight tokens →
      ∃ before bracket after,
        tokens = before ++ bracket :: after ∧
        bracket.isClosing = true ∧
        Level Token.weight before ∧
        depth Token.weight before = 0 ∧
        ofTokens tokens =
          .error (.structuralMismatch bracket.position (bracket.lexeme.toList.headD ')'))) ∧
    (Level Token.weight tokens →
      0 < depth Token.weight tokens →
      ∃ before bracket after,
        tokens = before ++ bracket :: after ∧
        bracket.isOpening = true ∧
        LastUnmatched Token.weight bracket after ∧
        ofTokens tokens = .error (.unclosedBlock bracket.position bracket.lexeme)) := by
  refine ⟨fun level balanced => ?_, ofTokens_of_not_level, ofTokens_of_unclosed⟩
  obtain ⟨members, built⟩ := ofTokens_of_level level balanced
  have flattened := flattenAll_of_ofTokens built
  refine ⟨members, built, flattened, fun others same => ?_, fun otherTokens alsoBuilt => ?_⟩
  · exact flattenAll_inj (same.trans flattened.symm)
  · exact (flattenAll_of_ofTokens alsoBuilt).symm.trans flattened

end Node

end CellScript
