/-! Sets of characters given by ranges of code points, both ends included. -/

namespace ArithLang.Text

abbrev Ranges := List (Nat × Nat)

def Ranges.contains (ranges : Ranges) (c : Char) : Bool :=
  ranges.any fun range => range.1 ≤ c.toNat && c.toNat ≤ range.2

end ArithLang.Text
