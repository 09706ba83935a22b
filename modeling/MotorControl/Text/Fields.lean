/-
Blank characters and the fields between them.

A character is blank if it has the property White_Space.  `fields` cuts a text at
every blank and keeps the pieces that are not empty, so blanks at either end and
runs of blanks do not count.
-/

namespace MotorControl.Text

/-- The characters with the property White_Space, as ranges of code points. -/
def blankRanges : List (Nat × Nat) :=
  [(0x0009, 0x000D), (0x0020, 0x0020), (0x0085, 0x0085), (0x00A0, 0x00A0), (0x1680, 0x1680),
    (0x2000, 0x200A), (0x2028, 0x2029), (0x202F, 0x202F), (0x205F, 0x205F), (0x3000, 0x3000)]

/-- Whether a character is blank. -/
def isBlank (c : Char) : Bool :=
  blankRanges.any fun (first, last) => first ≤ c.toNat && c.toNat ≤ last

/-- The pieces of a text between its blanks, the empty ones included. -/
def pieces : List Char → List (List Char)
  | [] => [[]]
  | c :: cs =>
    if isBlank c then [] :: pieces cs
    else
      match pieces cs with
      | [] => [[c]]
      | p :: ps => (c :: p) :: ps

/-- The fields of a text: its pieces that are not empty. -/
def fields (cs : List Char) : List (List Char) :=
  (pieces cs).filter fun p => !p.isEmpty

end MotorControl.Text
