import ByteRegex.Proofs.Search.Rewriting

/-!
# Possessive quantifiers

A possessive quantifier is an atomic group around the greedy one, except that a group repeated
exactly once is never made atomic.
-/

namespace ByteRegex

open Grammar ParseState

/-- A possessive quantifier can be replaced by an atomic group around the greedy one. -/
theorem Grammar.rewrites_possessive {operand : List Token} (repeatable : Operand operand)
    {least : Nat} {most : Option Nat}
    (simple : (⟨least, most, .possessive⟩ : Quantifier).isOnce = true → operand.length = 1) :
    Rewrites (quantified operand ⟨least, most, .possessive⟩)
      (.opening (.ok .atomic) :: (quantified operand ⟨least, most, .greedy⟩ ++ [.closing])) := by
  intro state first second old new
  rw [foldlM_quantified repeatable] at old
  obtain ⟨settled, done, old⟩ := exists_of_bind old
  have nothing : settled.frame.pending = .nothing := settle_pending done
  rw [List.foldlM_cons] at new
  obtain ⟨entered, opened, new⟩ := exists_of_bind new
  rw [List.foldlM_append] at new
  obtain ⟨middle, inside, new⟩ := exists_of_bind new
  rw [foldlM_one] at new
  -- The group opens above the settled frame,
  have opens : settled.openGroup (.ok .atomic) = .ok entered :=
    (openGroup_of_settle done _).symm.trans opened
  rw [openGroup_of_nothing nothing] at opens
  split at opens
  · cases opens
  cases opens
  -- what stands in it is the same as outside,
  obtain ⟨repeated, groups, closed, counters, kind, runs⟩ :=
    exists_of_quantified repeatable rfl inside
  cases inside.symm.trans (runs _ ⟨rfl, rfl, Nat.le_refl _, rfl, rfl, rfl⟩ _)
  have outside := runs settled ⟨nothing, rfl, Nat.le_succ _, rfl, rfl, rfl⟩
    ⟨least, most, .possessive⟩
  cases old.symm.trans outside
  -- and it closes as an atomic sequence of one piece.
  have parts (quantifier : Quantifier) : (repeated quantifier).IsPart ∧
      (repeated quantifier).IsRepeated := by
    rcases kind with ⟨test, rfl⟩ | ⟨expr, rfl, _⟩ <;> exact ⟨trivial, trivial⟩
  obtain ⟨_, settles, _⟩ := exists_of_bind new
  obtain ⟨piece, counters', made, rfl⟩ := exists_of_settle (parts ⟨least, most, .greedy⟩).1 settles
  have closes := closeGroup_of_piece settles nofun
  obtain ⟨atom, measured, same⟩ := exists_of_map (closes.symm.trans new)
  obtain ⟨_, _, rfl⟩ := exists_of_map measured
  cases same
  refine agrees_of_await _ _ _ _ _ _
    (.replaced id (parts _).2 trivial fun former latter one other => ?_)
  cases other
  rcases kind with ⟨test, rfl⟩ | ⟨expr, rfl, single⟩
  · cases one
    cases made
    exact .possessive_test least most test
  · obtain ⟨counter, rfl⟩ := one
    obtain ⟨counter', rfl⟩ := made
    exact .possessive_repeated least most (fun once => single (simple once)) counter counter'

namespace Program

/-- Patterns with a possessive quantifier and with an atomic group around the greedy one find the
same, unless the quantifier is on a group that stands exactly once. -/
theorem search_possessive {before text bounds after : List UInt8} {front operand : List Token}
    {least : Nat} {most : Option Nat}
    (stands : Reads (before ++ (text ++ (bounds ++ '+'.toUInt8 :: after))) front
      (text ++ (bounds ++ '+'.toUInt8 :: after)))
    (reads : Reads (text ++ (bounds ++ '+'.toUInt8 :: after)) operand
      (bounds ++ '+'.toUInt8 :: after))
    (repeatable : Operand operand)
    (repeats : Repeats (bounds ++ '+'.toUInt8 :: after) least most ('+'.toUInt8 :: after))
    (simple : least = 1 → most = some 1 → operand.length = 1) {flags : Flags}
    (spelled : flags.verbatim = false) {program other : Program}
    (compiled : compile (before ++ (text ++ (bounds ++ '+'.toUInt8 :: after))) flags = .ok program)
    (compiled' : compile (before ++ (grouped '>' (text ++ bounds) ++ after)) flags = .ok other)
    (subject : Array UInt8) (window : Window) (limits limits' : Limits)
    (running : (program.report subject window limits.ceilings).halted = false)
    (running' : (other.report subject window limits'.ceilings).halted = false) :
    program.search subject window limits = other.search subject window limits' := by
  have once : (⟨least, most, .possessive⟩ : Quantifier).isOnce = true → operand.length = 1 := by
    intro once
    simp only [Quantifier.isOnce, Bool.and_eq_true, decide_eq_true_eq] at once
    exact simple once.1 once.2
  -- The possessive quantifier as it stands.
  have whole : Reads (before ++ (text ++ (bounds ++ '+'.toUInt8 :: after)))
      (front ++ quantified operand ⟨least, most, .possessive⟩) after :=
    stands.append (reads.append (.one (.quantifier repeats (.possessive after))))
  -- In the group a parenthesis follows the bounds, so that the quantifier is greedy.
  have closes : Splices (bounds ++ '+'.toUInt8 :: after) (bounds ++ ')'.toUInt8 :: after) :=
    .append (.closing _ after) bounds
  have follows : Lexeme (bounds ++ ')'.toUInt8 :: after)
      (.quantifier (.ok ⟨least, most, .greedy⟩)) (')'.toUInt8 :: after) :=
    .quantifier repeats.replace (.closing after)
  have inside : Reads (text ++ (bounds ++ ')'.toUInt8 :: after))
      (quantified operand ⟨least, most, .greedy⟩ ++ [.closing]) after :=
    ((reads.splice closes).append (.one follows)).append (.one (.closing after))
  have opens : Lexeme (grouped '>' (text ++ bounds) ++ after) (.opening (.ok .atomic))
      (text ++ (bounds ++ ')'.toUInt8 :: after)) := by
    rw [grouped, List.cons_append, List.cons_append, List.cons_append, List.append_assoc,
      List.append_assoc]
    exact .opening (.atomic _)
  have whole' : Reads (before ++ (grouped '>' (text ++ bounds) ++ after))
      (front ++ .opening (.ok .atomic) ::
        (quantified operand ⟨least, most, .greedy⟩ ++ [.closing])) after :=
    (stands.splice (.opening _ _)).append (.cons opens inside)
  have tokens_eq := whole.tokens_eq
  have tokens_eq' := whole'.tokens_eq
  rw [List.append_assoc] at tokens_eq tokens_eq'
  exact search_eq_of_rewrites (rewrites_possessive repeatable once) tokens_eq tokens_eq' spelled
    compiled compiled' subject window limits limits' running running'

theorem search_possessive_star :
    ∃ program other,
      compile (['(', 'x', ')', 'a', '*', '+', 'b'].map Char.toUInt8) .default = .ok program ∧
      compile (['(', 'x', ')', '(', '?', '>', 'a', '*', ')', 'b'].map Char.toUInt8) .default =
        .ok other ∧
      program.code ≠ other.code ∧
      program.search #[120, 97, 97, 98] ⟨0, 4, .forward⟩ .default =
        other.search #[120, 97, 97, 98] ⟨0, 4, .forward⟩ .default ∧
      (program.search #[120, 97, 97, 98] ⟨0, 4, .forward⟩ .default).isSome = true := by
  have compiled : compile (['(', 'x', ')'].map Char.toUInt8 ++ (['a'].map Char.toUInt8 ++
        (['*'].map Char.toUInt8 ++ '+'.toUInt8 :: ['b'.toUInt8]))) .default =
      .ok ⟨#[20, 1, 0, 3, 120, 0, 21, 1, 0, 29, 0, 0, 255, 255, 3, 97, 0, 3, 98, 0, 0], 1,
        .default⟩ :=
    compile_of_toOption (by decide +kernel)
  have compiled' : compile (['(', 'x', ')'].map Char.toUInt8 ++
        (grouped '>' (['a'].map Char.toUInt8 ++ ['*'].map Char.toUInt8) ++ ['b'.toUInt8]))
        .default =
      .ok ⟨#[20, 1, 0, 3, 120, 0, 21, 1, 0, 34, 9, 0, 27, 0, 0, 255, 255, 3, 97, 0, 1, 3, 98, 0,
        0], 1, .default⟩ :=
    compile_of_toOption (by decide +kernel)
  have stands : Reads (['(', 'x', ')'].map Char.toUInt8 ++ (['a'].map Char.toUInt8 ++
        (['*'].map Char.toUInt8 ++ '+'.toUInt8 :: ['b'.toUInt8])))
      [.opening (.ok .plain), .literal 'x'.toUInt8, .closing]
      (['a'].map Char.toUInt8 ++ (['*'].map Char.toUInt8 ++ '+'.toUInt8 :: ['b'.toUInt8])) :=
    .cons (.opening (.plain (by decide))) (.cons (.literal (by decide) _) (.one (.closing _)))
  exact ⟨_, _, compiled, compiled', by decide,
    search_possessive stands (.one (.literal (by decide) _)) (.byte rfl) (.star _) (fun _ _ => rfl)
      rfl compiled compiled' _ _ _ _ (by decide +kernel) (by decide +kernel), by decide +kernel⟩

/-- A group that stands exactly once is not made atomic by a possessive quantifier: the second
alternative is still tried. -/
theorem search_possessive_once :
    ∃ program other,
      compile (['(', '?', ':', 'a', '|', 'a', 'b', ')', '\x7b', '1', ',', '1', '\x7d', '+', 'c'].map
        Char.toUInt8) .default = .ok program ∧
      compile (['(', '?', '>', '(', '?', ':', 'a', '|', 'a', 'b', ')', '\x7b', '1', ',', '1',
        '\x7d', ')', 'c'].map Char.toUInt8) .default = .ok other ∧
      (program.search #[97, 98, 99] ⟨0, 3, .forward⟩ .default).isSome = true ∧
      (program.report #[97, 98, 99] ⟨0, 3, .forward⟩ Limits.default.ceilings).halted = false ∧
      other.search #[97, 98, 99] ⟨0, 3, .forward⟩ .default = none ∧
      (other.report #[97, 98, 99] ⟨0, 3, .forward⟩ Limits.default.ceilings).halted = false := by
  refine ⟨⟨#[25, 6, 0, 3, 97, 0, 24, 5, 0, 5, 2, 0, 97, 98, 3, 99, 0, 0], 0, .default⟩,
    ⟨#[34, 15, 0, 25, 6, 0, 3, 97, 0, 24, 5, 0, 5, 2, 0, 97, 98, 1, 3, 99, 0, 0], 0, .default⟩,
    compile_of_toOption (by decide +kernel), compile_of_toOption (by decide +kernel),
    by decide +kernel, by decide +kernel, by decide +kernel, by decide +kernel⟩

end Program

end ByteRegex
