import ByteRegex.Proofs.Search.Rewriting

/-!
# Grouping one byte

A repeated byte has an instruction of its own, a repeated group is a loop. A group around one byte
makes no difference to what is found, whatever the quantifier behind it.
-/

namespace ByteRegex

open Grammar

namespace ParseState

/-- A group around one byte is a sequence of one test. -/
theorem foldlM_grouped {state : ParseState} (nothing : state.frame.pending = .nothing)
    {token : Token} (one : isSingle token = true) {next : ParseState}
    (ran : [.opening (.ok .enclosing), token, .closing].foldlM step state = .ok next) :
    ∃ pending test, pending.IsByte state.frame.flags.caseless test ∧
      state.step token = .ok (state.awaiting pending) ∧
      next = state.awaiting (.atom (.compound (.sequence (.test test) .empty))) := by
  obtain ⟨pending, test, byte, steps⟩ := exists_of_single one state.frame.flags
  refine ⟨pending, test, byte, steps state nothing rfl, ?_⟩
  rw [List.foldlM_cons] at ran
  obtain ⟨entered, opened, ran⟩ := exists_of_bind ran
  rw [List.foldlM_cons] at ran
  obtain ⟨waiting, read, ran⟩ := exists_of_bind ran
  rw [List.foldlM_cons] at ran
  obtain ⟨left, closed, ran⟩ := exists_of_bind ran
  cases ran
  have opens : state.openGroup (.ok .enclosing) = _ := opened
  rw [openGroup_of_nothing nothing] at opens
  split at opens
  · cases opens
  · cases opens
    cases read.symm.trans (steps _ rfl rfl)
    have settles : (awaiting ⟨.start .bare state.frame.flags, state.frame :: state.outer,
          state.groups, state.closed, state.counters⟩ pending).settle =
        .ok ⟨(Frame.start .bare state.frame.flags).addPiece (.test test),
          state.frame :: state.outer, state.groups, state.closed, state.counters⟩ :=
      settle_of_isByte byte
    have closes := closeGroup_of_piece settles nofun
    exact Except.ok.inj (closed.symm.trans closes)

end ParseState

open ParseState

/-- A repeated byte can be put into a group. -/
theorem Grammar.rewrites_grouped {token : Token} (one : isSingle token = true)
    (quantifier : Quantifier) :
    Rewrites (quantified [token] quantifier)
      (quantified [.opening (.ok .enclosing), token, .closing] quantifier) := by
  intro state first second old new
  rw [foldlM_quantified (.byte one)] at old
  obtain ⟨settled, done, old⟩ := exists_of_bind old
  have nothing : settled.frame.pending = .nothing := settle_pending done
  have opens : state.step (.opening (.ok .enclosing)) = settled.step (.opening (.ok .enclosing)) :=
    openGroup_of_settle done _
  rw [quantified, List.cons_append, List.foldlM_cons, opens, ← List.foldlM_cons,
    ← List.cons_append, List.foldlM_append] at new
  obtain ⟨middle, grouped, new⟩ := exists_of_bind new
  obtain ⟨pending, test, byte, read, rfl⟩ := foldlM_grouped nothing one grouped
  have first_eq : first = settled.awaiting (.repeatedTest test quantifier) := by
    rw [quantified, List.cons_append, List.foldlM_cons, read] at old
    have followed : [Token.quantifier (.ok quantifier)].foldlM step (settled.awaiting pending) =
      .ok first := old
    rw [foldlM_one] at followed
    exact Except.ok.inj (followed.symm.trans (addQuantifier_of_takes rfl (.byte byte) quantifier))
  have second_eq : second =
      settled.awaiting (.repeatedExpr (.sequence (.test test) .empty) quantifier) := by
    rw [foldlM_one] at new
    exact Except.ok.inj (new.symm.trans (addQuantifier_of_takes rfl (.compound _) quantifier))
  rw [first_eq, second_eq]
  refine agrees_of_await _ _ _ _ _ _
    (.replaced id trivial trivial fun piece piece' settles others => ?_)
  obtain ⟨counter, rfl⟩ := others
  cases settles
  exact .repeated_test quantifier test counter

namespace Program

/-- A group around a byte with a quantifier behind it changes nothing of what is found. -/
theorem search_grouped {before text after rest : List UInt8} {front : List Token} {token : Token}
    {quantifier : Quantifier} (stands : Reads (before ++ (text ++ after)) front (text ++ after))
    (read : Lexeme (text ++ after) token after) (one : isSingle token = true)
    (follows : Lexeme after (.quantifier (.ok quantifier)) rest) {flags : Flags}
    (spelled : flags.verbatim = false) {program other : Program}
    (compiled : compile (before ++ (text ++ after)) flags = .ok program)
    (compiled' : compile (before ++ (grouped ':' text ++ after)) flags = .ok other)
    (subject : Array UInt8) (window : Window) (limits limits' : Limits)
    (running : (program.report subject window limits.ceilings).halted = false)
    (running' : (other.report subject window limits'.ceilings).halted = false) :
    program.search subject window limits = other.search subject window limits' := by
  have reads : Reads (before ++ (text ++ after)) (front ++ quantified [token] quantifier) rest :=
    stands.append (.cons read (.one follows))
  have closes : Splices after (')'.toUInt8 :: after) := .closing after after
  have inside : Reads (text ++ ')'.toUInt8 :: after) [token] (')'.toUInt8 :: after) :=
    (Reads.one read).splice closes
  have opens : Lexeme (grouped ':' text ++ after) (.opening (.ok .enclosing))
      (text ++ ')'.toUInt8 :: after) := by
    rw [grouped, List.cons_append, List.cons_append, List.cons_append, List.append_assoc]
    exact .opening (.enclosing _)
  have reads' : Reads (before ++ (grouped ':' text ++ after))
      (front ++ quantified [.opening (.ok .enclosing), token, .closing] quantifier) rest := by
    refine (stands.splice (.opening _ _)).append ?_
    exact .cons opens (inside.append (.cons (.closing after) (.one follows)))
  have whole := reads.tokens_eq
  have whole' := reads'.tokens_eq
  rw [List.append_assoc] at whole whole'
  exact search_eq_of_rewrites (rewrites_grouped one quantifier) whole whole' spelled compiled
    compiled' subject window limits limits' running running'

theorem search_grouped_lazy_dot :
    ∃ program other,
      compile (['(', 'x', ')', '.', '*', '?', 'c'].map Char.toUInt8) .default = .ok program ∧
      compile (['(', 'x', ')', '(', '?', ':', '.', ')', '*', '?', 'c'].map Char.toUInt8) .default =
        .ok other ∧
      program.code ≠ other.code ∧
      program.search #[120, 97, 98, 99] ⟨0, 4, .forward⟩ .default =
        other.search #[120, 97, 98, 99] ⟨0, 4, .forward⟩ .default ∧
      (program.search #[120, 97, 98, 99] ⟨0, 4, .forward⟩ .default).isSome = true := by
  have compiled : compile (['(', 'x', ')'].map Char.toUInt8 ++
        (['.'].map Char.toUInt8 ++ ['*', '?', 'c'].map Char.toUInt8)) .default =
      .ok ⟨#[20, 1, 0, 3, 120, 0, 21, 1, 0, 28, 0, 0, 255, 255, 7, 3, 99, 0, 0], 1, .default⟩ :=
    compile_of_toOption (by decide +kernel)
  have compiled' : compile (['(', 'x', ')'].map Char.toUInt8 ++
        (grouped ':' (['.'].map Char.toUInt8) ++ ['*', '?', 'c'].map Char.toUInt8)) .default =
      .ok ⟨#[20, 1, 0, 3, 120, 0, 21, 1, 0, 26, 4, 0, 7, 24, 249, 255, 3, 99, 0, 0], 1,
        .default⟩ :=
    compile_of_toOption (by decide +kernel)
  have stands : Reads (['(', 'x', ')'].map Char.toUInt8 ++
        (['.'].map Char.toUInt8 ++ ['*', '?', 'c'].map Char.toUInt8))
      [.opening (.ok .plain), .literal 'x'.toUInt8, .closing]
      (['.'].map Char.toUInt8 ++ ['*', '?', 'c'].map Char.toUInt8) :=
    .cons (.opening (.plain (by decide))) (.cons (.literal (by decide) _) (.one (.closing _)))
  have follows : Lexeme (['*', '?', 'c'].map Char.toUInt8) (.quantifier (.ok ⟨0, none, .lazy⟩))
      ['c'.toUInt8] := .quantifier (.star _) (.lazy _)
  exact ⟨_, _, compiled, compiled', by decide,
    search_grouped stands (.dot _) rfl follows rfl compiled compiled' _ _ _ _ (by decide +kernel)
      (by decide +kernel), by decide +kernel⟩

end Program

end ByteRegex
