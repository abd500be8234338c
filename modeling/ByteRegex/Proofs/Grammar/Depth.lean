import ByteRegex.Proofs.Grammar.Nesting

/-!
# Depth

A parser with more groups around those that are open goes on as it would without them, until too
many are open at once. How many there may be is decided by the tokens alone.
-/

namespace ByteRegex

/-- How many groups are open behind a token. -/
def Token.depthAfter (opened : Nat) : Token → Nat
  | .opening _ => opened + 1
  | .closing => opened - 1
  | _ => opened

/-- The most groups that are open at once while tokens are read. -/
def deepest (opened : Nat) : List Token → Nat
  | [] => opened
  | token :: later => max opened (deepest (token.depthAfter opened) later)

/-- How deep the groups of a pattern are nested. -/
def nesting (pattern : List UInt8) : Nat := deepest 0 (tokens pattern)

theorem Token.depthAfter_of_plain {token : Token} (opens : ∀ read, token ≠ .opening read)
    (closes : token ≠ .closing) (opened : Nat) : token.depthAfter opened = opened := by
  cases token with
  | opening read => exact absurd rfl (opens read)
  | closing => exact absurd rfl closes
  | _ => rfl

namespace ParseState

variable {state settled next : ParseState}

/-- The parser with more groups around those that are open. -/
def below (state : ParseState) (around : List Frame) : ParseState :=
  state.within (state.outer ++ around)

theorem below_nil (state : ParseState) : state.below [] = state := by
  rw [below, List.append_nil]
  rfl

theorem settle_below (done : state.settle = .ok settled) (around : List Frame) :
    (state.below around).settle = .ok (settled.below around) := by
  rw [below, below, settle_within, done, outer_of_settle done]
  rfl

/-- A group opens below as many others as are open, if there may be one more. -/
theorem openGroup_below {read : Except CompileError Opening}
    (opened : state.openGroup read = .ok next) (around : List Frame) :
    next.outer.length = state.outer.length + 1 ∧
      (state.below around).openGroup read =
        if state.outer.length + 1 + around.length ≤ Capacity.nesting then .ok (next.below around)
        else .error .tooComplex := by
  rw [openGroup_eq_settle] at opened
  obtain ⟨settled, found, opened⟩ := exists_of_bind opened
  have nothing : settled.frame.pending = .nothing := settle_pending found
  have nothing' : (settled.below around).frame.pending = .nothing := nothing
  have level : settled.outer.length = state.outer.length :=
    congrArg List.length (outer_of_settle found)
  have level' : (settled.below around).outer.length = state.outer.length + around.length := by
    rw [← level]
    exact List.length_append
  rw [openGroup_of_nothing nothing] at opened
  rw [openGroup_of_settle (settle_below found around), openGroup_of_nothing nothing', level']
  split at opened
  · cases opened
  · obtain ⟨⟨enclosure, flags, groups⟩, made, rfl⟩ := exists_of_map opened
    refine ⟨congrArg (· + 1) level, ?_⟩
    by_cases room : state.outer.length + 1 + around.length ≤ Capacity.nesting
    · have made' : read.bind (enclosed (settled.below around).frame.flags
          (settled.below around).groups) = .ok (enclosure, flags, groups) := made
      rw [if_pos room, if_neg (by omega), made']
      rfl
    · rw [if_neg room, if_pos (by omega)]

theorem exists_parent_of_closeGroup (ended : state.closeGroup = .ok next) :
    ∃ parent outer, state.outer = parent :: outer := by
  obtain ⟨settled, found, rest⟩ := exists_of_bind ended
  obtain ⟨body, _, rest⟩ := exists_of_bind rest
  rw [outer_of_settle found] at rest
  cases around : state.outer with
  | nil =>
      rw [around] at rest
      cases rest
  | cons parent outer => exact ⟨parent, outer, rfl⟩

theorem closeGroup_below (ended : state.closeGroup = .ok next) (around : List Frame) :
    next.outer.length = state.outer.length - 1 ∧
      (state.below around).closeGroup = .ok (next.below around) := by
  obtain ⟨parent, outer, same⟩ := exists_parent_of_closeGroup ended
  obtain ⟨atom, groups, closed, counters, closes⟩ := exists_of_closeGroup same ended
  have whole : state.within (parent :: outer) = state := by
    rw [← same]
    rfl
  cases ended.symm.trans (whole ▸ closes parent outer)
  rw [below, same]
  exact ⟨rfl, closes parent (outer ++ around)⟩

/-- What a token does below more groups is what it does without them, unless it opens a group too
many. -/
theorem step_below {token : Token} (stepped : state.step token = .ok next) {around : List Frame}
    (room : state.outer.length + around.length ≤ Capacity.nesting) :
    next.outer.length = token.depthAfter state.outer.length ∧
      (state.below around).step token =
        if token.depthAfter state.outer.length + around.length ≤ Capacity.nesting then
          .ok (next.below around)
        else .error .tooComplex := by
  by_cases opens : ∃ read, token = .opening read
  · obtain ⟨read, rfl⟩ := opens
    exact openGroup_below stepped around
  have opens : ∀ read, token ≠ .opening read := not_exists.mp opens
  by_cases closes : token = .closing
  · subst closes
    obtain ⟨level, ends⟩ := closeGroup_below stepped around
    have fewer : state.outer.length - 1 + around.length ≤ Capacity.nesting :=
      Nat.le_trans (Nat.add_le_add_right (Nat.sub_le _ _) _) room
    exact ⟨level, ends.trans (if_pos fewer).symm⟩
  · have kept : next.outer = state.outer := outer_of_step opens closes stepped
    rw [token.depthAfter_of_plain opens closes, if_pos room, below, below, kept,
      step_within opens closes, stepped]
    exact ⟨rfl, rfl⟩

/-- Tokens that are read below more groups come to the same unless the groups are too many. -/
theorem foldlM_below {run : List Token} (ran : run.foldlM step state = .ok next)
    {around : List Frame} (room : state.outer.length + around.length ≤ Capacity.nesting) :
    run.foldlM step (state.below around) =
      if deepest state.outer.length run + around.length ≤ Capacity.nesting then
        .ok (next.below around)
      else .error .tooComplex := by
  induction run generalizing state with
  | nil =>
      cases ran
      exact (if_pos room).symm
  | cons token later ih =>
      rw [List.foldlM_cons] at ran
      obtain ⟨middle, stepped, ran⟩ := exists_of_bind ran
      obtain ⟨level, steps⟩ := step_below stepped room
      rw [List.foldlM_cons, steps, ← level, deepest, ← level]
      by_cases fits : middle.outer.length + around.length ≤ Capacity.nesting
      · rw [if_pos fits]
        refine (ih ran fits).trans ?_
        have same : max state.outer.length (deepest middle.outer.length later) + around.length ≤
            Capacity.nesting ↔
              deepest middle.outer.length later + around.length ≤ Capacity.nesting := by omega
        simp only [same]
      · have deep : middle.outer.length ≤ deepest middle.outer.length later := by
          cases later with
          | nil => exact Nat.le_refl _
          | cons => exact Nat.le_max_left _ _
        rw [if_neg fits, if_neg (by omega)]
        rfl

/-- The parser never has more groups open than there may be. -/
theorem deepest_le {run : List Token} (ran : run.foldlM step state = .ok next)
    (room : state.outer.length ≤ Capacity.nesting) :
    deepest state.outer.length run ≤ Capacity.nesting := by
  have none : state.outer.length + ([] : List Frame).length ≤ Capacity.nesting := room
  have alone := foldlM_below ran none
  rw [below_nil, ran] at alone
  split at alone
  · assumption
  · cases alone

end ParseState

end ByteRegex
