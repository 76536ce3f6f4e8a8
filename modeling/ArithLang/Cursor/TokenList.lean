import ArithLang.Cursor

/-!
The cursor over tokens read before. The list ahead may hold an error in place of a token: a move onto
it fails and stays where it is. So does a move past the end, without failing.
-/

namespace ArithLang

structure TokenList where
  input : List Char
  lastStop : Position := {}
  current : Token
  ahead : List (Except LexError Token)

namespace TokenList

def advance (list : TokenList) : Except LexError Unit × TokenList :=
  match list.ahead with
  | [] => (.ok (), list)
  | .ok current :: ahead => (.ok (), { list with lastStop := list.current.stop, current, ahead })
  | .error error :: _ => (.error error, list)

end TokenList

instance : TokenCursor TokenList where
  current list := list.current
  lastStop list := list.lastStop
  advance := TokenList.advance
  input list := list.input
  remaining list := list.ahead.length + 1

end ArithLang
