import Mathlib.Data.List.Chain
import ArithLang.Proofs.Expr.Spelling

/-! Where the colons of a spelling stand: between other tokens, and never beside one another. -/

namespace ArithLang

open Lexeme (mark)

namespace Lexeme

/-- The first may stand before the second where colons are kept apart. -/
def Apart (a b : Lexeme) : Prop := a.1 ≠ .doubleColon ∧ ¬ (a.1 = .colon ∧ b.1 = .colon)

/-- Colons are kept apart, also with one more before these lexemes and one after them. -/
def ColonsApart (ls : List Lexeme) : Prop := (mark .colon :: ls ++ [mark .colon]).IsChain Apart

/-- The lexeme has nothing to do with colons. -/
def Uncoloned (l : Lexeme) : Prop := l.1 ≠ .colon ∧ l.1 ≠ .doubleColon

variable {a b l : Lexeme} {ls us : List Lexeme}

theorem Apart.of_colon (h : a.Apart (mark .colon)) (b : Lexeme) : a.Apart b :=
  ⟨h.1, fun hb => h.2 ⟨hb.1, rfl⟩⟩

theorem ColonsApart.single (hl : l.Uncoloned) : ColonsApart [l] :=
  have before : (mark .colon).Apart l := ⟨nofun, fun h => hl.1 h.2⟩
  have after : l.Apart (mark .colon) := ⟨hl.2, fun h => hl.1 h.1⟩
  List.IsChain.cons_cons before (.cons_cons after (.singleton _))

theorem ColonsApart.colon (h : ColonsApart ls) (h' : ColonsApart us) :
    ColonsApart (ls ++ mark .colon :: us) := by
  have heq : mark .colon :: (ls ++ mark .colon :: us) ++ [mark .colon] =
      mark .colon :: ls ++ mark .colon :: (us ++ [mark .colon]) := by simp
  rw [ColonsApart, heq]
  exact List.isChain_split.2 ⟨h, h'⟩

theorem ColonsApart.append (h : ColonsApart ls) (h' : ColonsApart us) : ColonsApart (ls ++ us) := by
  cases us with
  | nil => rwa [List.append_nil]
  | cons u us =>
    -- What may stand before a colon may stand before anything.
    have hu : (mark .colon :: ls ++ [u]).IsChain Apart := by
      obtain ⟨hls, -, hlast⟩ := List.isChain_append.1 h
      refine List.isChain_append.2 ⟨hls, .singleton _, fun l hl _ _ => ?_⟩
      exact (hlast l hl (mark .colon) rfl).of_colon _
    have heq : mark .colon :: (ls ++ u :: us) ++ [mark .colon] =
        mark .colon :: ls ++ u :: (us ++ [mark .colon]) := by simp
    rw [ColonsApart, heq]
    exact List.isChain_split.2 ⟨hu, (List.isChain_cons_cons.1 h').2⟩

theorem ColonsApart.cons (hl : l.Uncoloned) (h : ColonsApart ls) : ColonsApart (l :: ls) :=
  (ColonsApart.single hl).append h

theorem ColonsApart.concat (h : ColonsApart ls) (hl : l.Uncoloned) : ColonsApart (ls ++ [l]) :=
  h.append (.single hl)

theorem ColonsApart.flatMap {α : Type} {f : α → List Lexeme} (h : ColonsApart ls) {xs : List α}
    (hf : ∀ x ∈ xs, ColonsApart (f x)) : ColonsApart (ls ++ xs.flatMap f) := by
  induction xs generalizing ls with
  | nil => rwa [List.flatMap_nil, List.append_nil]
  | cons x xs ih =>
    rw [List.forall_mem_cons] at hf
    rw [List.flatMap_cons, ← List.append_assoc]
    exact ih (h.append hf.1) hf.2

theorem uncoloned_mark (k : Kind) (hc : k ≠ .colon) (hd : k ≠ .doubleColon) :
    (mark k).Uncoloned := ⟨hc, hd⟩

end Lexeme

open Lexeme (ColonsApart uncoloned_mark)

theorem LogicalOp.uncoloned (op : LogicalOp) : op.lexeme.Uncoloned := by
  cases op <;> exact ⟨nofun, nofun⟩

theorem BinaryOp.uncoloned (op : BinaryOp) : op.lexeme.Uncoloned := by
  cases op <;> exact ⟨nofun, nofun⟩

theorem AssignOp.uncoloned (op : AssignOp) : op.lexeme.Uncoloned := by
  cases op <;> exact ⟨nofun, nofun⟩

theorem UnaryOp.uncoloned (op : UnaryOp) : op.lexeme.Uncoloned := by
  cases op <;> exact ⟨nofun, nofun⟩

theorem UpdateOp.uncoloned (op : UpdateOp) : op.lexeme.Uncoloned := ⟨nofun, nofun⟩

theorem Spells.colonsApart {m n : Nat} {e : Expr} {ls : List Lexeme} (h : Spells m n e ls) :
    ColonsApart ls := by
  induction h with
  | number | identifier => exact .single ⟨nofun, nofun⟩
  | member _ _ _ ih ih' =>
    exact (ih.append (ih'.cons (uncoloned_mark .bracketL nofun nofun))).concat
      (uncoloned_mark .bracketR nofun nofun)
  | sequence _ _ _ ih ih' =>
    exact ih.flatMap fun part hm => (ih' part hm).cons (uncoloned_mark .comma nofun nofun)
  | assignment _ _ _ ih ih' => exact ih.append (ih'.cons (AssignOp.uncoloned _))
  | conditional _ _ _ _ ih ih' ih'' =>
    exact (ih.append (ih'.cons (uncoloned_mark .question nofun nofun))).colon ih''
  | logical _ _ _ ih ih' => exact ih.append (ih'.cons (LogicalOp.uncoloned _))
  | binary _ _ _ _ ih ih' | power _ _ _ ih ih' => exact ih.append (ih'.cons (BinaryOp.uncoloned _))
  | unary _ _ ih => exact ih.cons (UnaryOp.uncoloned _)
  | prefixUpdate _ _ ih => exact ih.cons (UpdateOp.uncoloned _)
  | postfixUpdate _ _ ih => exact ih.concat (UpdateOp.uncoloned _)
  | parenthesized _ _ ih =>
    exact (ih.cons (uncoloned_mark .parenL nofun nofun)).concat
      (uncoloned_mark .parenR nofun nofun)

end ArithLang
