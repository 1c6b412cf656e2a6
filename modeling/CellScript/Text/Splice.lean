namespace CellScript.Text

/-!
# Splicing

Splicing writes characters into a text at a position.  As many characters as are
to be replaced give way, or as many as the text has from there on.  A position
behind the end of the text is taken as its end.
-/

/-- Write `inserted` at a position, in place of `replaced` characters. -/
def splice
    (content : List Char)
    (position replaced : Nat)
    (inserted : List Char) :
    List Char :=
  let start := min position content.length
  content.take start ++ inserted ++ content.drop (start + replaced)

end CellScript.Text
