import Abacus.Proofs.Outline

/-!
# Where a text stops being an expression

Symbols can be written down again as a text, and the symbols that complete an outline can be
written behind them. So whatever the reader has taken without a complaint begins an expression, and
the token that it refuses is the first with which no expression can go on, provided that it does not
give up earlier for the depth.
-/
namespace Abacus

open Token (Kind)

namespace Symbol

end Symbol

theorem Laid.legal {source before : Bytes} {ts : List Token} (h : Laid source before ts)
    (hbytes : ∀ b ∈ source, b ∈ Bytes.blanks ∨ b ∈ Bytes.digits ∨ b ∈ Token.signs) :
    ∀ t ∈ ts, t.Legal := by
  intro t ht b hkind
  obtain ⟨us, vs, rfl⟩ := List.append_of_mem ht
  obtain ⟨_, _, text, _, hsplit, _, _, hcovers, _⟩ := h.exists_covers
  have hspells := hcovers.spells
  rw [Token.Spells, hkind] at hspells
  obtain ⟨rfl, hblank, hdigit, hsign⟩ := hspells
  have hb : b ∈ source := by simp [hsplit]
  rcases hbytes b hb with h | h | h
  · exact hblank h
  · exact hdigit h
  · exact hsign h

namespace Parse

section Texts

variable {maxDepth : Int} {source : Bytes} {e : Expr} {o : Outline} {w : Symbol}
  {ws : List Symbol}

end Texts
end Parse

end Abacus
