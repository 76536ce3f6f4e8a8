import ArithLang.Proofs.Position

/-! Offsets at which a text can be cut: between two characters, or at one of its ends. -/

namespace ArithLang

namespace Text

def Boundary (cs : List Char) (offset : Nat) : Prop :=
  ∃ before after, cs = before ++ after ∧ offset = byteLength before

variable {s t : List Char} {m n : Nat}

theorem boundary_append (s t : List Char) : Boundary (s ++ t) (byteLength s) := ⟨s, t, rfl, rfl⟩

theorem boundary_of_append {u : List Char} (h : s ++ t = u) : Boundary u (byteLength s) :=
  h ▸ boundary_append s t

theorem boundary_zero (s : List Char) : Boundary s 0 := ⟨[], s, rfl, rfl⟩

theorem boundary_end (s : List Char) : Boundary s (byteLength s) := ⟨s, [], by simp, rfl⟩

theorem boundary_of_prefix (h : t <+: s) : Boundary s (byteLength t) := by
  obtain ⟨after, h⟩ := h
  exact boundary_of_append h

/-- A boundary of what follows is a boundary of the whole. -/
theorem Boundary.after (h : Boundary t n) (s : List Char) : Boundary (s ++ t) (byteLength s + n) := by
  obtain ⟨before, after, rfl, rfl⟩ := h
  rw [← byteLength_append, ← List.append_assoc]
  exact boundary_append ..

theorem Boundary.le (h : Boundary s n) : n ≤ byteLength s := by
  obtain ⟨before, after, rfl, rfl⟩ := h
  rw [byteLength_append]
  exact Nat.le_add_right ..

/-- Between two boundaries, the first not after the second, lies a slice. -/
theorem Boundary.slice?_eq (hm : Boundary s m) (hn : Boundary s n) (hle : m ≤ n) :
    ∃ t, slice? s m n = some t := by
  obtain ⟨before, after, rfl, rfl⟩ := hm
  obtain ⟨before', after', heq, rfl⟩ := hn
  obtain ⟨mid, rfl, rfl⟩ | ⟨back, rfl, rfl⟩ := List.append_eq_append_iff.1 heq
  · refine ⟨mid, ?_⟩
    rw [← List.append_assoc, byteLength_append]
    exact slice?_append before mid after'
  · cases back with
    | nil =>
      refine ⟨[], ?_⟩
      have := slice?_append before' [] after
      rw [List.append_nil] at this ⊢
      exact this
    | cons c back =>
      have := byteLength_pos (List.cons_ne_nil c back)
      rw [byteLength_append] at hle
      omega

end Text

theorem Position.IsIn.boundary {p : Position} {input : List Char} (h : p.IsIn input) :
    Text.Boundary input p.offset := by
  obtain ⟨s, t, rfl, rfl⟩ := isIn_iff.1 h
  exact Text.boundary_append s t

end ArithLang
