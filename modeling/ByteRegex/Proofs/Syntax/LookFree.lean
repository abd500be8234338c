import ByteRegex.Proofs.Syntax.Closed

/-!
# Patterns without lookarounds

A pattern has a lookaround if one of its tokens opens one. Without such a token the parser never has
a frame for a lookaround, so the expression has none either.
-/

namespace ByteRegex

def Token.isLook : Token → Bool
  | opening (.ok (.look _)) => true
  | _ => false

/-- Whether a pattern has no lookaround. A pattern taken verbatim has none, whatever its bytes. -/
def LookFree (pattern : List UInt8) (flags : Flags) : Prop :=
  flags.verbatim = true ∨ ∀ token ∈ tokens pattern, token.isLook = false

theorem Token.admitted_of_isLook {token : Token} (plain : token.isLook = false) :
    token.Admitted fun _ => False := by
  unfold Token.isLook at plain
  split at plain
  · cases plain
  · rename_i other
    unfold Token.Admitted
    split
    · exact other _ rfl
    · trivial

namespace Expr

def LookFree : Expr → Prop
  | empty | test _ | literal _ _ | assertion _ | backReference _ _ | repetition _ _ => True
  | sequence first second | alternative first second => first.LookFree ∧ second.LookFree
  | capture _ body | loop _ _ _ body | atomic body => body.LookFree
  | look _ _ _ => False

theorem lookFree_alternationOfReversed {branches : List Expr} {last : Expr}
    (parts : ∀ branch ∈ branches, branch.LookFree) (free : last.LookFree) :
    (alternationOfReversed branches last).LookFree := by
  unfold alternationOfReversed
  induction branches generalizing last with
  | nil => exact free
  | cons branch rest ih =>
      obtain ⟨here, others⟩ := List.forall_mem_cons.mp parts
      exact ih others ⟨here, free⟩

theorem closed_lookFree : Closed (fun _ => False) LookFree where
  empty := trivial
  test _ := trivial
  literal _ _ := trivial
  assertion _ := trivial
  backReference _ _ := trivial
  repetition _ _ := trivial
  sequence _ _ former latter := ⟨former, latter⟩
  capture _ _ inner := inner
  alternation _ _ parts last _ := lookFree_alternationOfReversed parts last
  loop _ _ _ _ inner _ := inner
  atomic _ inner _ := inner
  look _ _ _ admitted _ _ := admitted.elim

end Expr

/-- The expression of a pattern without lookarounds has none. -/
theorem lookFree_of_parse {pattern : List UInt8} {flags : Flags} {expr : Expr} {groups : Nat}
    (free : LookFree pattern flags) (parsed : parse pattern flags = .ok (expr, groups)) :
    expr.LookFree :=
  Expr.closed_lookFree.of_parse
    (free.imp_right fun plain token member => Token.admitted_of_isLook (plain token member)) parsed

end ByteRegex
