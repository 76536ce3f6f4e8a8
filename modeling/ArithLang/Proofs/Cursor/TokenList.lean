import ArithLang.Cursor.TokenList
import ArithLang.Proofs.Cursor.Passes

/-! The cursor over a list is lawful if the list holds genuine tokens and ends at `eof` or an error. -/

namespace ArithLang

namespace TokenList

/-- A list on the first of some tokens. -/
def ofTokens (input : List Char) : List Token → TokenList
  | [] => { input, current := {}, ahead := [] }
  | current :: ts => { input, current, ahead := ts.map .ok }

/-- Tokens of one byte each, so many bytes from start to start. -/
def spaced (width : Nat) (lexemes : List Lexeme) : List Token :=
  lexemes.zipIdx.map fun x =>
    { kind := x.1.1, value := x.1.2, start := { offset := x.2 * width },
      stop := { offset := x.2 * width + 1 } }

def Ends (current : Token) : List (Except LexError Token) → Prop
  | [] => current.kind = .eof
  | .error _ :: _ => True
  | .ok t :: rs => Ends t rs

structure Valid (list : TokenList) : Prop where
  genuine : list.current.lexeme.Genuine
  genuine_ahead : ∀ t, .ok t ∈ list.ahead → t.lexeme.Genuine
  ends : Ends list.current list.ahead

variable {list list' : TokenList}

theorem advance_of_ok {t : Token} {rs : List (Except LexError Token)}
    (h : list.ahead = .ok t :: rs) : list.advance =
      (.ok (), { list with lastStop := list.current.stop, current := t, ahead := rs }) := by
  rw [advance, h]

theorem advance_of_error {e : LexError} {rs : List (Except LexError Token)}
    (h : list.ahead = .error e :: rs) : list.advance = (.error e, list) := by
  rw [advance, h]

theorem advance_of_nil (h : list.ahead = []) : list.advance = (.ok (), list) := by
  rw [advance, h]

theorem Valid.advance {r : Except LexError Unit} (h : list.Valid)
    (ha : list.advance = (r, list')) : list'.Valid := by
  obtain ⟨hc, hg, he⟩ := h
  cases hl : list.ahead with
  | nil =>
    cases (advance_of_nil hl).symm.trans ha
    exact ⟨hc, hg, he⟩
  | cons next rs =>
    cases next with
    | error e =>
      cases (advance_of_error hl).symm.trans ha
      exact ⟨hc, hg, he⟩
    | ok t =>
      cases (advance_of_ok hl).symm.trans ha
      rw [hl] at hg he
      exact ⟨hg t List.mem_cons_self, fun u hu => hg u (List.mem_cons_of_mem _ hu), he⟩

end TokenList

instance : LawfulCursor TokenList where
  Valid := TokenList.Valid
  valid_advance := TokenList.Valid.advance
  genuine h := h.genuine
  remaining_pos _ := Nat.succ_pos _
  remaining_lt {list list'} h hk ha _ := by
    have he := h.ends
    cases hl : list.ahead with
    | nil =>
      rw [hl] at he
      exact absurd he hk
    | cons next rs =>
      cases next with
      | error e => cases (TokenList.advance_of_error hl).symm.trans ha
      | ok t =>
        cases (TokenList.advance_of_ok hl).symm.trans ha
        change rs.length + 1 < list.ahead.length + 1
        rw [hl]
        exact Nat.lt_succ_self _

end ArithLang
