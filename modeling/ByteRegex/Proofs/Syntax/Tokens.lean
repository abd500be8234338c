import ByteRegex.Proofs.Syntax.Bounds
import ByteRegex.Pattern.Parse

/-!
# Token sequences

Where one token ends and the next one begins depends neither on flags nor on what the parser has
read. So a pattern is a sequence of tokens, and parsing it is a fold over them. What is said of all
the tokens of a pattern is said of the pattern as it is written.
-/

namespace ByteRegex

/-- The tokens of a pattern. -/
def tokens (pattern : List UInt8) : List Token :=
  match pattern with
  | [] => []
  | byte :: rest =>
      let found := Token.read byte rest
      found.1 :: tokens found.2
termination_by pattern.length
decreasing_by exact Nat.lt_succ_of_le (Token.read_length byte rest)

theorem tokens_cons (byte : UInt8) (rest : List UInt8) :
    tokens (byte :: rest) = (Token.read byte rest).1 :: tokens (Token.read byte rest).2 := by
  rw [tokens]

/-- What is true of each token read from some text is true of the tokens of a pattern. -/
theorem forall_mem_tokens {property : Token → Prop}
    (read : ∀ byte rest, property (Token.read byte rest).1) (pattern : List UInt8) :
    ∀ token ∈ tokens pattern, property token := by
  fun_induction tokens pattern with
  | case1 => exact nofun
  | case2 byte rest found ih =>
      intro token member
      rcases List.mem_cons.mp member with same | later
      · rw [same]
        exact read byte rest
      · exact ih token later

namespace ParseState

theorem readAll_eq_foldlM (state : ParseState) (pattern : List UInt8) :
    state.readAll pattern = (tokens pattern).foldlM step state >>= finish := by
  fun_induction readAll state pattern with
  | case1 state => simp only [tokens, List.foldlM_nil, pure_bind]
  | case2 state byte rest token error failed =>
      rw [tokens_cons, List.foldlM_cons, failed]
      rfl
  | case3 state byte rest token next stepped ih =>
      rw [tokens_cons, List.foldlM_cons, stepped, ih]
      rfl

/-- What every token keeps holds at the end of the pattern. -/
theorem readAll_invariant {state : ParseState} {pattern : List UInt8} {result : Expr × Nat}
    (invariant : ParseState → Prop)
    (kept : ∀ token ∈ tokens pattern, ∀ state next : ParseState, state.step token = .ok next →
      invariant state → invariant next)
    (start : invariant state) (read : state.readAll pattern = .ok result) :
    ∃ last, invariant last ∧ last.finish = .ok result := by
  rw [readAll_eq_foldlM] at read
  obtain ⟨last, folded, finished⟩ := exists_of_bind read
  exact ⟨last, foldlM_invariant invariant kept start folded, finished⟩

end ParseState

end ByteRegex
