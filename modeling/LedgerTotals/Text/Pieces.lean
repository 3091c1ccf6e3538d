/-
Pieces: what stands before, between and after the marks in a text. There is one piece more than
there are marks, and the pieces with the marks between them are the text again.
-/
namespace LedgerTotals

/-- the pieces of a text between its marks -/
def pieces (mark : Char) : List Char → List (List Char)
  | [] => [[]]
  | c :: cs =>
    if c = mark then [] :: pieces mark cs
    else match pieces mark cs with
      | [] => [[c]]
      | p :: ps => (c :: p) :: ps

end LedgerTotals
