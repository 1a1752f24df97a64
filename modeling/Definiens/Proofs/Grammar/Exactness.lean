import Definiens.Proofs.Grammar.Derivation
import Definiens.Proofs.Grammar.Viability
import Definiens.Proofs.Grammar.Whole

/-!
# The parser accepts what the grammar derives

The rules are tried in order, and a rule goes on as far as it can; neither makes the parser refuse what
the grammar derives when both are disregarded.
-/

namespace Definiens

open Interpretation

theorem Definition.Written.derivable {d : Definition} {tokens : List Token}
    (written : d.Written tokens) : Derivable tokens := by
  have stands := Between.map_self tokens
  obtain ⟨-, tokens', stands', member⟩ :=
    (Rule.adheres_read .definition).matched (written.read stands)
  rw [derivable_iff, stands.unique stands']
  exact mem_form_singleton.mp member

theorem derivable_iff_written {tokens : List Token} :
    Derivable tokens ↔ ∃ d : Definition, d.Written tokens :=
  ⟨Derivable.written, fun ⟨_, written⟩ => written.derivable⟩

/-- A source that is lexed to its end is a definition exactly if its tokens, without the finish, are
derived by the grammar. -/
theorem parse_ok_iff_derivable {source : String} {tokens : List Token}
    (lexed : tokenize source = .ok tokens) :
    ∃ (before : List Token) (offset : Nat), tokens = before ++ [.finish offset] ∧
      ((∃ d, parse source = .ok d) ↔ Derivable before) := by
  obtain ⟨hitems, before, offset, rfl, ordinary⟩ := items_of_tokenize lexed
  refine ⟨before, offset, rfl, ?_⟩
  rw [derivable_iff_written]
  exact exists_congr fun d => parse_eq_ok_iff_of_tokens hitems rfl ordinary

/-- A symbol that spells `in` may stand as a variable in what is derived. -/
theorem derivable_equality :
    tokenize "def type[a]\x7bx=in\x7d" = .ok
        ([⟨.define, "def", 0, 3⟩, ⟨.type, "type[a]", 4, 7⟩, ⟨.leftBrace, "\x7b", 11, 1⟩,
          ⟨.symbol, "x", 12, 1⟩, ⟨.equals, "=", 13, 1⟩, ⟨.symbol, "in", 14, 2⟩,
          ⟨.rightBrace, "\x7d", 16, 1⟩] ++ [.finish 17]) ∧
      Derivable
        [⟨.define, "def", 0, 3⟩, ⟨.type, "type[a]", 4, 7⟩, ⟨.leftBrace, "\x7b", 11, 1⟩,
         ⟨.symbol, "x", 12, 1⟩, ⟨.equals, "=", 13, 1⟩, ⟨.symbol, "in", 14, 2⟩,
         ⟨.rightBrace, "\x7d", 16, 1⟩] := by
  have lexed : tokenize "def type[a]\x7bx=in\x7d" = .ok
      ([⟨.define, "def", 0, 3⟩, ⟨.type, "type[a]", 4, 7⟩, ⟨.leftBrace, "\x7b", 11, 1⟩,
        ⟨.symbol, "x", 12, 1⟩, ⟨.equals, "=", 13, 1⟩, ⟨.symbol, "in", 14, 2⟩,
        ⟨.rightBrace, "\x7d", 16, 1⟩] ++ [.finish 17]) := by
    rfl
  have parsed : parse "def type[a]\x7bx=in\x7d" = .ok
      ⟨⟨.define, "def", 0, 3⟩, ⟨⟨.type, "type[a]", 4, 7⟩⟩,
        .equal ⟨.equals, "=", 13, 1⟩ (.var ⟨⟨.symbol, "x", 12, 1⟩⟩)
          (.var ⟨⟨.symbol, "in", 14, 2⟩⟩)⟩ := by
    decide +kernel
  obtain ⟨before, offset, same, accepted⟩ := parse_ok_iff_derivable lexed
  refine ⟨lexed, ?_⟩
  rw [List.append_inj_left' same rfl]
  exact accepted.mp ⟨_, parsed⟩

end Definiens
