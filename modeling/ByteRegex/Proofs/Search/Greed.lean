import ByteRegex.Proofs.Assembly.Edits
import ByteRegex.Proofs.Grammar.Splicing
import ByteRegex.Proofs.Search.Correctness
import ByteRegex.Proofs.Semantics.Reordering

/-!
# Greed

Greedy or lazy, a quantifier decides which match is found, but never whether there is one.
-/

namespace ByteRegex

namespace Grammar

/-- Patterns that differ in which of their quantifiers are lazy and in nothing else. They have no
lookarounds and nothing that is atomic or possessive. A verbatim pattern has no quantifiers. -/
def Reorders (flags : Flags) (pattern pattern' : List UInt8) : Prop :=
  if flags.verbatim then pattern = pattern'
  else List.Forall₂ (Token.Agrees .reordering) (tokens pattern) (tokens pattern')

/-- To put a question mark behind the bounds of a quantifier or to take it away changes no other
token. -/
theorem Reorders.of_suffix {flags : Flags} (spelled : flags.verbatim = false)
    {before bounds mark mark' after : List UInt8} {front : List Token} {least : Nat}
    {most : Option Nat} {greed greed' : Greed}
    (stands : Reads (before ++ (bounds ++ (mark ++ after))) front (bounds ++ (mark ++ after)))
    (repeats : Repeats (bounds ++ (mark ++ after)) least most (mark ++ after))
    (suffix : Suffix (mark ++ after) greed after) (suffix' : Suffix (mark' ++ after) greed' after)
    (free : ∀ token ∈ tokens (before ++ (bounds ++ (mark ++ after))),
      token.Agrees .reordering token)
    (backtracks : greed' ≠ .possessive) :
    Reorders flags (before ++ (bounds ++ (mark ++ after)))
      (before ++ (bounds ++ (mark' ++ after))) := by
  have splices : Splices (bounds ++ (mark ++ after)) (bounds ++ (mark' ++ after)) := by
    cases bounds with
    | nil => exact absurd repeats.length_lt (Nat.lt_irrefl _)
    | cons byte bounds => exact .inl rfl
  have whole := (stands.append (.one (.quantifier repeats suffix))).tokens_eq
  have whole' := ((stands.splice splices).append
    (.one (.quantifier repeats.replace suffix'))).tokens_eq
  rw [whole, List.append_assoc] at free
  have unchanged {part : List Token}
      (inside : part ⊆ front ++ ([.quantifier (.ok ⟨least, most, greed⟩)] ++ tokens after)) :
      List.Forall₂ (Token.Agrees .reordering) part part :=
    List.forall₂_same.mpr fun token member => free token (inside member)
  have changed : Token.Agrees .reordering (.quantifier (.ok ⟨least, most, greed⟩))
      (.quantifier (.ok ⟨least, most, greed'⟩)) := by
    cases free (.quantifier (.ok ⟨least, most, greed⟩)) (by simp) with
    | same plain => exact absurd rfl (plain _)
    | quantifier agree => exact .quantifier ⟨rfl, rfl, agree.backtracks, backtracks⟩
  rw [Reorders, if_neg (by simp [spelled]), whole, whole', List.append_assoc, List.append_assoc]
  exact List.rel_append (unchanged (by simp)) (.cons changed (unchanged fun token => by simp_all))

/-- Such patterns are refused together, and their expressions have the same results in any order. -/
theorem Reorders.parse {flags : Flags} {pattern pattern' : List UInt8}
    (reorders : Reorders flags pattern pattern') :
    Both (fun result result' => result.1.Reorders result'.1 ∧ result.2 = result'.2)
      (parse pattern flags) (parse pattern' flags) := by
  unfold Reorders at reorders
  unfold ByteRegex.parse
  by_cases verbatim : flags.verbatim = true
  · rw [if_pos verbatim] at reorders
    subst reorders
    simp only [verbatim, if_true]
    split
    · exact .error _
    · exact .ok ⟨.refl _, rfl⟩
  · rw [if_neg verbatim] at reorders
    simp only [verbatim]
    have nothing : tokens [] = [] := by rw [tokens]
    have level : pattern.isEmpty = pattern'.isEmpty := by
      have lengths := reorders.length_eq
      cases pattern <;> cases pattern' <;> simp_all [tokens_cons]
    rw [level]
    split
    · exact .error _
    · have first : (ParseState.initial flags).Agrees .reordering (.initial flags) :=
        ⟨⟨rfl, rfl, .nil, .nil, .nothing, by simp [ParseState.initial, Frame.start],
          by simp [ParseState.initial, Frame.start]⟩, .nil, rfl, rfl, fun _ => rfl⟩
      exact (first.readAll Comparison.reordering_congruent reorders).both trivial

end Grammar

open Grammar

namespace Program

/-- Whether quantifiers are greedy or lazy makes no difference to whether a pattern is accepted, and
none to whether a search finds a match in a window. -/
theorem isSome_search_of_reorders {pattern pattern' : List UInt8} {flags : Flags}
    (reorders : Reorders flags pattern pattern') :
    Both (fun program other => ∀ subject window limits limits',
        (program.report subject window limits.ceilings).halted = false →
        (other.report subject window limits'.ceilings).halted = false →
        (program.search subject window limits).isSome =
          (other.search subject window limits').isSome)
      (compile pattern flags) (compile pattern' flags) := by
  have parsed := reorders.parse
  have fate := compile_both_of_level (parsed.mono fun _ _ same => same.1.emit)
  refine fate.attach.mono fun program other ⟨compiled, compiled', _⟩ => ?_
  intro subject window limits limits' running running'
  obtain ⟨expr, read, kept, implements⟩ := implements_of_compile compiled
  obtain ⟨expr', read', kept', implements'⟩ := implements_of_compile compiled'
  rw [read, read'] at parsed
  cases parsed with
  | ok same =>
      rw [implements.search_of_running running, implements'.search_of_running running', kept,
        kept', same.1.isSome_firstMatch]

theorem isSome_search_of_reorders_plus :
    ∃ program other,
      compile (['(', 'a', '+', ')', '\\', '1'].map Char.toUInt8) .default = .ok program ∧
      compile (['(', 'a', '+', '?', ')', '\\', '1'].map Char.toUInt8) .default = .ok other ∧
      program.search #[97, 97, 97, 97] ⟨0, 0, .forward⟩ .default ≠
        other.search #[97, 97, 97, 97] ⟨0, 0, .forward⟩ .default ∧
      (program.search #[97, 97, 97, 97] ⟨0, 0, .forward⟩ .default).isSome =
        (other.search #[97, 97, 97, 97] ⟨0, 0, .forward⟩ .default).isSome := by
  have compiled : compile (['(', 'a'].map Char.toUInt8 ++ (['+'].map Char.toUInt8 ++
      ([] ++ [')', '\\', '1'].map Char.toUInt8))) .default =
      .ok ⟨#[20, 1, 0, 27, 1, 0, 255, 255, 3, 97, 0, 21, 1, 0, 22, 1, 0, 0], 1, .default⟩ :=
    compile_of_toOption (by decide +kernel)
  have compiled' : compile (['(', 'a'].map Char.toUInt8 ++ (['+'].map Char.toUInt8 ++
      (['?'].map Char.toUInt8 ++ [')', '\\', '1'].map Char.toUInt8))) .default =
      .ok ⟨#[20, 1, 0, 28, 1, 0, 255, 255, 3, 97, 0, 21, 1, 0, 22, 1, 0, 0], 1, .default⟩ :=
    compile_of_toOption (by decide +kernel)
  have stands : Reads (['(', 'a'].map Char.toUInt8 ++ (['+'].map Char.toUInt8 ++
      ([] ++ [')', '\\', '1'].map Char.toUInt8)))
      [.opening (.ok .plain), .literal 'a'.toUInt8]
      (['+'].map Char.toUInt8 ++ ([] ++ [')', '\\', '1'].map Char.toUInt8)) :=
    .cons (.opening (.plain (by decide))) (.one (.literal (by decide) _))
  have ends : Reads ([')', '\\', '1'].map Char.toUInt8) [.closing, .backReference 1] [] :=
    .cons (.closing _) (.one (.backReference (by decide) (by decide) []))
  have greedy : Lexeme (['+'].map Char.toUInt8 ++ ([] ++ [')', '\\', '1'].map Char.toUInt8))
      (.quantifier (.ok ⟨1, none, .greedy⟩)) ([')', '\\', '1'].map Char.toUInt8) :=
    .quantifier (.plus _) (.greedy (by decide) (by decide))
  have free : ∀ token ∈ tokens (['(', 'a'].map Char.toUInt8 ++ (['+'].map Char.toUInt8 ++
      ([] ++ [')', '\\', '1'].map Char.toUInt8))), token.Agrees .reordering token := by
    rw [((stands.append (.one greedy)).append ends).tokens_eq, tokens]
    simp only [List.cons_append, List.nil_append, List.append_nil, List.forall_mem_cons]
    refine ⟨.same ?_ ?_ ?_, .same ?_ ?_ ?_, .quantifier ⟨rfl, rfl, ?_, ?_⟩, .same ?_ ?_ ?_,
      .same ?_ ?_ ?_, ?_⟩ <;> simp
  have lazier : Suffix (['?'].map Char.toUInt8 ++ [')', '\\', '1'].map Char.toUInt8) .lazy
      ([')', '\\', '1'].map Char.toUInt8) := .lazy _
  have spelled : Flags.default.verbatim = false := rfl
  have reorders := Reorders.of_suffix spelled stands (.plus _) (.greedy (by decide) (by decide))
    lazier free (by decide)
  have both := isSome_search_of_reorders reorders
  rw [compiled, compiled'] at both
  cases both with
  | ok same =>
      exact ⟨_, _, compiled, compiled', by decide +kernel,
        same _ _ _ _ (by decide +kernel) (by decide +kernel)⟩

end Program

end ByteRegex
