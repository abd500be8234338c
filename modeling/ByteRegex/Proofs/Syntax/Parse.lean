import ByteRegex.Proofs.Syntax.Numbering

/-!
# Parsed expressions

Every step of the parser keeps the numbering, so the expression of a pattern is well-formed, has
exactly the groups that are counted, and refers to no others.
-/

namespace ByteRegex

/-- What is true of a parser between two tokens. -/
structure ParseState.Sound (state : ParseState) : Prop where
  opened : Frame.openedBefore state.outer state.frame.enclosure ++
    state.frame.contents.flatMap Expr.captures = List.range' 1 state.groups
  groups : state.groups < Capacity.slots
  counted : Frame.countedBefore state.outer ++ state.frame.contents.flatMap Expr.counters =
    List.range state.counters
  counters : state.counters ≤ Capacity.counters
  closed : ∀ group ∈ state.closed, 1 ≤ group ∧ group ≤ state.groups
  fits : ∀ frame ∈ state.frame :: state.outer, ∀ expr ∈ frame.contents, expr.Fits state.groups
  pending : state.frame.pending.Valid
  waiting : ∀ frame ∈ state.outer, frame.pending = .nothing

namespace ParseState

variable {state next : ParseState}

theorem initial_sound (flags : Flags) : (initial flags).Sound where
  opened := rfl
  groups := Nat.zero_lt_succ _
  counted := rfl
  counters := Nat.zero_le _
  closed := by simp [initial]
  fits := by simp [initial, Frame.start, Frame.contents, Pending.contents]
  pending := trivial
  waiting := by simp [initial]

/-- Contents that are rearranged without new numbers. -/
theorem Sound.withFrame (sound : state.Sound) {frame : Frame}
    (enclosure : frame.enclosure = state.frame.enclosure)
    (captures : frame.contents.flatMap Expr.captures = state.frame.contents.flatMap Expr.captures)
    (counters : frame.contents.flatMap Expr.counters = state.frame.contents.flatMap Expr.counters)
    (fits : ∀ expr ∈ frame.contents, expr.Fits state.groups) (pending : frame.pending.Valid) :
    (state.withFrame frame).Sound where
  opened := by
    show Frame.openedBefore state.outer frame.enclosure ++ frame.contents.flatMap Expr.captures = _
    rw [enclosure, captures]
    exact sound.opened
  groups := sound.groups
  counted := by
    show Frame.countedBefore state.outer ++ frame.contents.flatMap Expr.counters = _
    rw [counters]
    exact sound.counted
  counters := sound.counters
  closed := sound.closed
  fits := by
    intro other member
    rcases List.mem_cons.mp member with same | outer
    · subst same
      exact fits
    · exact sound.fits other (List.mem_cons_of_mem _ outer)
  pending := pending
  waiting := sound.waiting

/-- Parts without groups and counters that are added to the contents. -/
theorem Sound.withPlain (sound : state.Sound) {frame : Frame} (added : List Expr)
    (enclosure : frame.enclosure = state.frame.enclosure)
    (contents : frame.contents = state.frame.contents ++ added)
    (plain : ∀ expr ∈ added, expr.captures = [] ∧ expr.counters = [] ∧ expr.Fits state.groups)
    (pending : frame.pending.Valid) : (state.withFrame frame).Sound := by
  have captures : added.flatMap Expr.captures = [] :=
    List.flatMap_eq_nil_iff.mpr fun expr member => (plain expr member).1
  have counters : added.flatMap Expr.counters = [] :=
    List.flatMap_eq_nil_iff.mpr fun expr member => (plain expr member).2.1
  apply sound.withFrame enclosure
  · rw [contents, List.flatMap_append, captures, List.append_nil]
  · rw [contents, List.flatMap_append, counters, List.append_nil]
  · intro expr member
    rw [contents] at member
    rcases List.mem_append.mp member with old | new
    · exact sound.fits _ (List.mem_cons_self ..) expr old
    · exact (plain expr new).2.2
  · exact pending

theorem plain_literals (frame : Frame) (bytes : List UInt8) (groups : Nat) :
    ∃ added, (frame.addLiterals bytes).contents =
        frame.branches.reverse ++ frame.pieces.reverse ++ added ∧
      ∀ expr ∈ added, expr.captures = [] ∧ expr.counters = [] ∧ expr.Fits groups := by
  unfold Frame.addLiterals
  split
  · refine ⟨[], ?_, by simp⟩
    simp [Frame.contents, Pending.contents]
  · exact ⟨_, Frame.contents_addPiece _, by simp [Expr.captures, Expr.counters, Expr.Fits,
      Expr.WellFormed, Expr.references]⟩
  · exact ⟨_, Frame.contents_addPiece _, by simp [Expr.captures, Expr.counters, Expr.Fits,
      Expr.WellFormed, Expr.references]⟩

theorem addLoop_sound {body : Expr} {quantifier : Quantifier} (sound : state.Sound)
    (pending : state.frame.pending = .repeatedExpr body quantifier)
    (added : state.addLoop body quantifier = .ok next) :
    next.Sound ∧ next.frame.pending = .nothing := by
  have contents : state.frame.contents =
      state.frame.branches.reverse ++ state.frame.pieces.reverse ++ [body] := by
    rw [Frame.contents, pending]
    rfl
  have valid : quantifier.Valid := by
    have held := sound.pending
    rw [pending] at held
    exact held
  have fits := sound.fits _ (List.mem_cons_self ..)
  have bodyFits : body.Fits state.groups := fits body (by simp [contents])
  have opened := sound.opened
  have counted := sound.counted
  rw [contents, List.flatMap_append, List.flatMap_singleton] at opened counted
  have below : ∀ counter ∈ body.counters, counter < state.counters := by
    intro counter member
    rw [← List.mem_range, ← counted]
    simp [member]
  unfold addLoop at added
  dsimp only at added
  split at added
  · cases added
  · rename_i room
    simp only [Bool.and_eq_true, decide_eq_true_eq, not_and, Nat.not_le] at room
    obtain ⟨_, _, same⟩ := exists_of_map added
    subst same
    -- A possessive loop is an atomic group, with the same numbers inside.
    have whole : ∃ whole : Expr, whole = (if quantifier.greed = .possessive then
          Expr.atomic (.loop quantifier body.nullable
            (if quantifier.needsCounter body.nullable then state.counters else 0) body)
        else .loop quantifier body.nullable
          (if quantifier.needsCounter body.nullable then state.counters else 0) body) ∧
        whole.captures = body.captures ∧
        whole.counters = body.counters ++
          (if quantifier.needsCounter body.nullable then [state.counters] else []) ∧
        whole.Fits state.groups := by
      refine ⟨_, rfl, ?_⟩
      have wellFormed : (Expr.loop quantifier body.nullable
          (if quantifier.needsCounter body.nullable then state.counters else 0) body).WellFormed := by
        refine ⟨valid, rfl, fun needed => ?_, bodyFits.1⟩
        rw [if_pos needed]
        exact ⟨room needed, fun member => Nat.lt_irrefl _ (below _ member)⟩
      have numbered : (if quantifier.needsCounter body.nullable then
          [if quantifier.needsCounter body.nullable then state.counters else 0] else []) =
          if quantifier.needsCounter body.nullable then [state.counters] else [] := by
        split <;> rfl
      split
      · exact ⟨rfl, congrArg (body.counters ++ ·) numbered, wellFormed, bodyFits.2⟩
      · exact ⟨rfl, congrArg (body.counters ++ ·) numbered, wellFormed, bodyFits.2⟩
    obtain ⟨whole, same, captures, counters, wholeFits⟩ := whole
    rw [← same]
    refine ⟨⟨?_, sound.groups, ?_, ?_, sound.closed, ?_, trivial, sound.waiting⟩, rfl⟩
    · show Frame.openedBefore state.outer state.frame.enclosure ++
        (state.frame.addPiece whole).contents.flatMap Expr.captures = _
      rw [Frame.contents_addPiece, List.flatMap_append, List.flatMap_singleton, captures]
      exact opened
    · show Frame.countedBefore state.outer ++
        (state.frame.addPiece whole).contents.flatMap Expr.counters = List.range _
      rw [Frame.contents_addPiece, List.flatMap_append, List.flatMap_singleton, counters]
      have longer := congrArg
        (· ++ if quantifier.needsCounter body.nullable then [state.counters] else []) counted
      simp only [List.append_assoc] at longer ⊢
      rw [longer]
      split
      · exact List.range_succ.symm
      · exact List.append_nil _
    · dsimp only
      split
      · rename_i needed
        exact room needed
      · exact sound.counters
    · intro frame member expr inside
      rcases List.mem_cons.mp member with same | outer
      · subst same
        rw [Frame.contents_addPiece] at inside
        rcases List.mem_append.mp inside with old | new
        · exact fits expr (by rw [contents]; exact List.mem_append_left _ old)
        · rw [List.mem_singleton.mp new]
          exact wholeFits
      · exact sound.fits frame (List.mem_cons_of_mem _ outer) expr inside

theorem plain_nil {groups : Nat} (expr : Expr) (member : expr ∈ ([] : List Expr)) :
    expr.captures = [] ∧ expr.counters = [] ∧ expr.Fits groups := nomatch member

theorem plain_test {groups : Nat} (test : ByteTest) (expr : Expr) (member : expr ∈ [Expr.test test]) :
    expr.captures = [] ∧ expr.counters = [] ∧ expr.Fits groups := by
  rw [List.mem_singleton.mp member]
  simp [Expr.captures, Expr.counters, Expr.Fits, Expr.WellFormed, Expr.references]

theorem settle_sound (sound : state.Sound) (settled : state.settle = .ok next) :
    next.Sound ∧ next.frame.pending = .nothing := by
  have contents : state.frame.contents = state.frame.branches.reverse ++
      state.frame.pieces.reverse ++ state.frame.pending.contents := rfl
  have bounds := sound.pending
  unfold settle at settled
  split at settled
  · rename_i waiting
    cases settled
    exact ⟨sound, waiting⟩
  · rename_i last earlier waiting
    cases settled
    rw [waiting, Pending.contents, List.append_nil] at contents
    obtain ⟨added, same, plain⟩ := plain_literals state.frame (last :: earlier) state.groups
    obtain ⟨enclosure, nothing⟩ := state.frame.addLiterals_settles (last :: earlier)
    refine ⟨sound.withPlain added enclosure ?_ plain ?_, nothing⟩
    · rw [same, contents]
    · rw [nothing]
      trivial
  · rename_i single waiting
    cases settled
    rw [waiting, Pending.contents, List.append_nil] at contents
    refine ⟨sound.withPlain [.test single] rfl ?_ (plain_test single) trivial, rfl⟩
    rw [Frame.contents_addPiece, contents]
  · rename_i expr waiting
    cases settled
    rw [waiting] at contents
    refine ⟨sound.withPlain [] rfl ?_ plain_nil trivial, rfl⟩
    rw [Frame.contents_addPiece, contents, List.append_nil]
    rfl
  · rename_i expr waiting
    cases settled
    rw [waiting] at contents
    refine ⟨sound.withPlain [] rfl ?_ plain_nil trivial, rfl⟩
    rw [Frame.contents_addPiece, contents, List.append_nil]
    rfl
  · rename_i single quantifier waiting
    cases settled
    rw [waiting, Pending.contents, List.append_nil] at contents
    rw [waiting] at bounds
    refine ⟨sound.withPlain [if quantifier.isOnce then .test single
      else .repetition quantifier single] rfl ?_ ?_ trivial, rfl⟩
    · rw [Frame.contents_addPiece, contents]
    · intro expr member
      rw [List.mem_singleton.mp member]
      split
      · exact plain_test single _ (List.mem_singleton_self _)
      · exact ⟨rfl, rfl, bounds, by simp [Expr.references]⟩
  · rename_i body quantifier waiting
    split at settled
    · cases settled
      rw [waiting] at contents
      refine ⟨sound.withPlain [] rfl ?_ plain_nil trivial, rfl⟩
      rw [Frame.contents_addPiece, contents, List.append_nil]
      rfl
    · exact addLoop_sound sound waiting settled

/-- What an atom without groups and counters adds to settled contents. -/
theorem Sound.await (sound : state.Sound) (settled : state.frame.pending = .nothing)
    {pending : Pending} (plain : ∀ expr ∈ pending.contents,
      expr.captures = [] ∧ expr.counters = [] ∧ expr.Fits state.groups)
    (valid : pending.Valid) : (state.withFrame (state.frame.await pending)).Sound :=
  sound.withPlain pending.contents rfl (Frame.contents_await settled pending) plain valid

theorem addAtom_sound (sound : state.Sound) {atom : Atom}
    (plain : ∀ expr ∈ (Pending.atom atom).contents,
      expr.captures = [] ∧ expr.counters = [] ∧ ∀ groups, expr.Fits groups)
    (added : state.addAtom atom = .ok next) : next.Sound := by
  obtain ⟨middle, settled, same⟩ := exists_of_map added
  obtain ⟨kept, nothing⟩ := settle_sound sound settled
  subst same
  apply kept.await nothing
  · intro expr member
    obtain ⟨captures, counters, fits⟩ := plain expr member
    exact ⟨captures, counters, fits _⟩
  · trivial

theorem addLiteral_sound (sound : state.Sound) {byte : UInt8}
    (added : state.addLiteral byte = .ok next) : next.Sound := by
  unfold addLiteral at added
  split at added
  · rename_i last earlier waiting
    cases added
    refine sound.withPlain [] rfl ?_ plain_nil trivial
    simp [Frame.contents, Frame.await, waiting, Pending.contents]
  · obtain ⟨middle, settled, same⟩ := exists_of_map added
    obtain ⟨kept, nothing⟩ := settle_sound sound settled
    subst same
    exact kept.await nothing plain_nil trivial

theorem addQuantifier_sound (sound : state.Sound) {read : Except CompileError Quantifier}
    (valid : ∀ quantifier, read = .ok quantifier → quantifier.Valid)
    (added : state.addQuantifier read = .ok next) : next.Sound := by
  have contents : state.frame.contents = state.frame.branches.reverse ++
      state.frame.pieces.reverse ++ state.frame.pending.contents := rfl
  unfold addQuantifier at added
  split at added
  · cases added
  · cases added
  · cases added
  · rename_i last earlier waiting
    obtain ⟨quantifier, found, same⟩ := exists_of_map added
    subst same
    rw [waiting, Pending.contents, List.append_nil] at contents
    obtain ⟨pieces, literal, plain⟩ := plain_literals state.frame earlier state.groups
    obtain ⟨enclosure, nothing⟩ := state.frame.addLiterals_settles earlier
    refine sound.withPlain pieces enclosure ?_ plain (valid quantifier found)
    rw [Frame.contents_await nothing, literal, contents]
    exact List.append_nil _
  · rename_i single waiting
    obtain ⟨quantifier, found, same⟩ := exists_of_map added
    subst same
    refine sound.withPlain [] rfl ?_ plain_nil (valid quantifier found)
    simp [Frame.contents, Frame.await, waiting, Pending.contents]
  · rename_i expr waiting
    obtain ⟨quantifier, found, same⟩ := exists_of_map added
    subst same
    refine sound.withPlain [] rfl ?_ plain_nil (valid quantifier found)
    simp [Frame.contents, Frame.await, waiting, Pending.contents]
  · cases read <;> cases added

theorem addBackReference_sound (sound : state.Sound) {group : Nat}
    (added : state.addBackReference group = .ok next) : next.Sound := by
  obtain ⟨middle, settled, referred⟩ := exists_of_bind added
  obtain ⟨kept, nothing⟩ := settle_sound sound settled
  dsimp only at referred
  split at referred
  · rename_i known
    cases referred
    simp only [Bool.and_eq_true, List.contains_iff_mem] at known
    obtain ⟨positive, bounded⟩ := kept.closed group known.2
    refine kept.await nothing (fun expr member => ?_) trivial
    rw [List.mem_singleton.mp member]
    refine ⟨rfl, rfl, ⟨positive, Nat.lt_of_le_of_lt bounded kept.groups⟩, fun other refers => ?_⟩
    rw [List.mem_singleton.mp refers]
    exact ⟨positive, bounded⟩
  · cases referred

theorem closeBranch_sound (sound : state.Sound) (closed : state.closeBranch = .ok next) :
    next.Sound := by
  obtain ⟨middle, settled, branched⟩ := exists_of_bind closed
  obtain ⟨kept, nothing⟩ := settle_sound sound settled
  obtain ⟨frame, ended, same⟩ := exists_of_map branched
  subst same
  have contents : middle.frame.contents =
      middle.frame.branches.reverse ++ middle.frame.pieces.reverse := by
    simp [Frame.contents, nothing, Pending.contents]
  unfold Frame.closeBranch at ended
  dsimp only at ended
  split at ended
  · cases ended
  · split at ended
    · cases ended
    · cases ended
      have fits := kept.fits _ (List.mem_cons_self ..)
      rw [contents] at fits
      have branch : (Expr.sequenceOfReversed middle.frame.pieces).Fits middle.groups :=
        Expr.fits_sequenceOfReversed fun piece member => fits piece (by simp [member])
      have merged : (⟨middle.frame.enclosure, middle.frame.flags,
          Expr.sequenceOfReversed middle.frame.pieces :: middle.frame.branches, [],
          middle.frame.pending⟩ : Frame).contents =
          middle.frame.branches.reverse ++ [Expr.sequenceOfReversed middle.frame.pieces] := by
        simp [Frame.contents, nothing, Pending.contents]
      refine kept.withFrame ?_ ?_ ?_ ?_ ?_
      · rfl
      · rw [merged, contents, List.flatMap_append, List.flatMap_append, List.flatMap_singleton,
          Expr.numbers_sequenceOfReversed Expr.captures rfl fun _ _ => rfl]
      · rw [merged, contents, List.flatMap_append, List.flatMap_append, List.flatMap_singleton,
          Expr.numbers_sequenceOfReversed Expr.counters rfl fun _ _ => rfl]
      · intro expr member
        rw [merged] at member
        rcases List.mem_append.mp member with old | new
        · exact fits expr (List.mem_append_left _ old)
        · rw [List.mem_singleton.mp new]
          exact branch
      · dsimp only
        rw [nothing]
        trivial

/-- What a group is to its surroundings: one expression, with the group's own number in front of
those inside. -/
theorem atom_contents {frame : Frame} {body : Expr} {atom : Atom} {groups : Nat}
    (fits : body.Fits groups) (own : ∀ group ∈ frame.enclosure.groups,
      1 ≤ group ∧ group ≤ groups ∧ groups < Capacity.slots ∧ group ∉ body.captures)
    (made : frame.atom body = .ok atom) :
    ∃ whole, (Pending.atom atom).contents = [whole] ∧
      whole.captures = frame.enclosure.groups ++ body.captures ∧
      whole.counters = body.counters ∧ whole.Fits groups := by
  unfold Frame.atom at made
  split at made
  · rename_i bare
    cases made
    rw [bare]
    exact ⟨body, rfl, rfl, rfl, fits⟩
  · rename_i group capture
    cases made
    rw [capture] at own ⊢
    obtain ⟨positive, bounded, few, fresh⟩ := own group (List.mem_singleton_self _)
    exact ⟨_, rfl, rfl, rfl, ⟨positive, Nat.lt_of_le_of_lt bounded few, fresh, fits.1⟩, fits.2⟩
  · rename_i atomic
    obtain ⟨_, _, same⟩ := exists_of_map made
    subst same
    rw [atomic]
    exact ⟨_, rfl, rfl, rfl, fits⟩
  · rename_i look enclosed
    split at made
    · cases made
    · rename_i width measured
      obtain ⟨_, _, same⟩ := exists_of_map made
      subst same
      rw [enclosed]
      refine ⟨_, rfl, rfl, rfl, ⟨fun behind => ?_, fits.1⟩, fits.2⟩
      unfold Frame.lookWidth at measured
      rw [if_pos behind] at measured
      split at measured
      · cases measured
      · rename_i fixed
        split at measured
        · rename_i short
          cases measured
          exact ⟨fixed, short⟩
        · cases measured

theorem closeGroup_sound (sound : state.Sound) (ended : state.closeGroup = .ok next) :
    next.Sound := by
  obtain ⟨middle, settled, rest⟩ := exists_of_bind ended
  obtain ⟨kept, nothing⟩ := settle_sound sound settled
  obtain ⟨body, whole, rest⟩ := exists_of_bind rest
  split at rest
  · cases rest
  · rename_i parent outer around
    obtain ⟨⟨atom, after⟩, finished, same⟩ := exists_of_bind rest
    obtain ⟨made, atomic, finished⟩ := exists_of_map finished
    have waiting := kept.waiting
    have opened := kept.opened
    have counted := kept.counted
    have fits := kept.fits
    rw [around] at waiting opened counted fits
    have settledParent : parent.pending = .nothing := waiting parent (List.mem_cons_self ..)
    have captures := Frame.numbers_expression Expr.captures rfl (fun _ _ => rfl) (fun _ _ => rfl)
      nothing whole
    have counters := Frame.numbers_expression Expr.counters rfl (fun _ _ => rfl) (fun _ _ => rfl)
      nothing whole
    rw [← captures, Frame.openedBefore] at opened
    rw [← counters, Frame.countedBefore] at counted
    have own : ∀ group ∈ middle.frame.enclosure.groups, 1 ≤ group ∧ group ≤ middle.groups ∧
        middle.groups < Capacity.slots ∧ group ∉ body.captures := by
      intro group member
      have listed : group ∈ List.range' 1 middle.groups := by
        rw [← opened]
        simp [member]
      have distinct : (List.range' 1 middle.groups).Nodup := List.nodup_range'
      rw [← opened] at distinct
      rw [List.mem_range'_1] at listed
      have apart := (List.nodup_append.mp distinct).2.2
      refine ⟨listed.1, by omega, kept.groups, fun inside => ?_⟩
      exact apart group (List.mem_append_right _ member) group inside rfl
    obtain ⟨group, contents, groupCaptures, groupCounters, groupFits⟩ :=
      atom_contents (Frame.fits_expression (fits _ (List.mem_cons_self ..)) whole) own atomic
    have result : atom = made ∧ after.groups = middle.groups ∧ after.counters = middle.counters ∧
        ∀ group ∈ after.closed, 1 ≤ group ∧ group ≤ middle.groups := by
      split at finished
      · rename_i number capture
        cases finished
        refine ⟨rfl, rfl, rfl, fun group member => ?_⟩
        rcases List.mem_cons.mp member with same | old
        · have bounds := own group (by rw [capture, same]; exact List.mem_singleton_self _)
          exact ⟨bounds.1, bounds.2.1⟩
        · exact kept.closed group old
      · cases finished
        exact ⟨rfl, rfl, rfl, kept.closed⟩
    obtain ⟨rfl, groups, counters, closed⟩ := result
    cases same
    have held : (parent.await (.atom atom)).contents = parent.contents ++ [group] := by
      rw [Frame.contents_await settledParent, contents]
    refine ⟨?_, ?_, ?_, ?_, ?_, ?_, trivial, ?_⟩
    · show Frame.openedBefore outer parent.enclosure ++
        (parent.await (.atom atom)).contents.flatMap Expr.captures = List.range' 1 after.groups
      rw [held, List.flatMap_append, List.flatMap_singleton, groupCaptures, groups, ← opened]
      simp only [List.append_assoc]
    · show after.groups < _
      rw [groups]
      exact kept.groups
    · show Frame.countedBefore outer ++
        (parent.await (.atom atom)).contents.flatMap Expr.counters = List.range after.counters
      rw [held, List.flatMap_append, List.flatMap_singleton, groupCounters, counters, ← counted]
      simp only [List.append_assoc]
    · show after.counters ≤ _
      rw [counters]
      exact kept.counters
    · show ∀ group ∈ after.closed, 1 ≤ group ∧ group ≤ after.groups
      rw [groups]
      exact closed
    · show ∀ frame ∈ parent.await (.atom atom) :: outer, ∀ expr ∈ frame.contents,
        expr.Fits after.groups
      rw [groups]
      intro frame member expr inside
      rcases List.mem_cons.mp member with same | further
      · rw [same, held] at inside
        rcases List.mem_append.mp inside with old | new
        · exact fits parent (List.mem_cons_of_mem _ (List.mem_cons_self ..)) expr old
        · rw [List.mem_singleton.mp new]
          exact groupFits
      · exact fits frame (List.mem_cons_of_mem _ (List.mem_cons_of_mem _ further)) expr inside
    · exact fun frame member => waiting frame (List.mem_cons_of_mem _ member)

/-- A group that opens stands behind everything read so far. -/
theorem enter_sound (sound : state.Sound) (settled : state.frame.pending = .nothing)
    {enclosure : Enclosure} {flags : Flags} {groups : Nat} (few : groups < Capacity.slots)
    (numbered : List.range' 1 groups = List.range' 1 state.groups ++ enclosure.groups) :
    ({ state.enter enclosure flags with groups := groups } : ParseState).Sound := by
  have more : state.groups ≤ groups := by
    have lengths := congrArg List.length numbered
    simp only [List.length_append, List.length_range'] at lengths
    omega
  refine ⟨?_, few, ?_, sound.counters, fun group member => ?_, fun frame member expr inside => ?_,
    trivial, fun frame member => ?_⟩
  · show Frame.openedBefore (state.frame :: state.outer) enclosure ++ [] = List.range' 1 groups
    rw [Frame.openedBefore, sound.opened, numbered, List.append_nil]
  · show Frame.countedBefore (state.frame :: state.outer) ++ [] = List.range state.counters
    rw [Frame.countedBefore, sound.counted, List.append_nil]
  · have bounds := sound.closed group member
    exact ⟨bounds.1, Nat.le_trans bounds.2 more⟩
  · rcases List.mem_cons.mp member with same | old
    · rw [same] at inside
      cases inside
    · exact (sound.fits frame old expr inside).mono more
  · rcases List.mem_cons.mp member with same | old
    · rw [same, settled]
    · exact sound.waiting frame old

theorem openGroup_sound (sound : state.Sound) {read : Except CompileError Opening}
    (opened : state.openGroup read = .ok next) : next.Sound := by
  obtain ⟨middle, settled, rest⟩ := exists_of_bind opened
  obtain ⟨kept, nothing⟩ := settle_sound sound settled
  dsimp only at rest
  split at rest
  · cases rest
  · obtain ⟨opening, _, entered⟩ := exists_of_bind rest
    have bare : ∀ flags, (middle.enter .bare flags).Sound := fun flags =>
      enter_sound kept nothing kept.groups (List.append_nil _).symm
    cases opening with
    | plain =>
        dsimp only at entered
        split at entered
        · split at entered
          · cases entered
          · rename_i room
            cases entered
            exact enter_sound kept nothing (Nat.not_le.mp room) (by
              rw [List.range'_1_concat, Nat.add_comm 1]
              rfl)
        · cases entered
          exact bare _
    | enclosing | inline enable changed =>
        cases entered
        exact bare _
    | atomic | look direction =>
        cases entered
        exact enter_sound kept nothing kept.groups (List.append_nil _).symm

theorem step_sound (sound : state.Sound) {token : Token} (valid : token.Valid)
    (stepped : state.step token = .ok next) : next.Sound := by
  cases token with
  | literal byte => exact addLiteral_sound sound stepped
  | opening read => exact openGroup_sound sound stepped
  | closing => exact closeGroup_sound sound stepped
  | bar => exact closeBranch_sound sound stepped
  | backReference group => exact addBackReference_sound sound stepped
  | quantifier read => exact addQuantifier_sound sound valid stepped
  | malformed error =>
      obtain ⟨_, _, failed⟩ := exists_of_bind stepped
      cases failed
  | dot | bracket bracket | inClass kind | notInClass kind =>
      exact addAtom_sound sound (fun _ member => by cases member) stepped
  | caret | dollar | assertion assertion =>
      refine addAtom_sound sound (fun expr member => ?_) stepped
      rw [List.mem_singleton.mp member]
      simp [Expr.captures, Expr.counters, Expr.Fits, Expr.WellFormed, Expr.references]

end ParseState

/-- What the parser promises about an expression with so many groups. -/
structure Expr.Numbered (expr : Expr) (groups : Nat) : Prop where
  wellFormed : expr.WellFormed
  captures : expr.captures = List.range' 1 groups
  few : groups < Capacity.slots
  references : ∀ group ∈ expr.references, 1 ≤ group ∧ group ≤ groups
  counters : ∃ count ≤ Capacity.counters, expr.counters = List.range count

namespace ParseState

variable {state : ParseState} {expr : Expr} {groups : Nat}

theorem finish_numbered (sound : state.Sound) (finished : state.finish = .ok (expr, groups)) :
    expr.Numbered groups := by
  obtain ⟨middle, settled, rest⟩ := exists_of_bind finished
  obtain ⟨kept, nothing⟩ := settle_sound sound settled
  obtain ⟨body, whole, rest⟩ := exists_of_bind rest
  split at rest
  · rename_i alone
    cases rest
    have fits := Frame.fits_expression (kept.fits _ (List.mem_cons_self ..)) whole
    have opened := kept.opened
    have counted := kept.counted
    rw [List.isEmpty_iff.mp alone, ← Frame.numbers_expression Expr.captures rfl (fun _ _ => rfl)
      (fun _ _ => rfl) nothing whole] at opened
    rw [List.isEmpty_iff.mp alone, ← Frame.numbers_expression Expr.counters rfl (fun _ _ => rfl)
      (fun _ _ => rfl) nothing whole] at counted
    exact ⟨fits.1, opened, kept.groups, fits.2, _, kept.counters, counted⟩
  · obtain ⟨_, _, failed⟩ := exists_of_bind rest
    cases failed

theorem readAll_numbered (rest : List UInt8) (sound : state.Sound)
    (read : state.readAll rest = .ok (expr, groups)) : expr.Numbered groups := by
  fun_induction readAll state rest with
  | case1 state => exact finish_numbered sound read
  | case2 state byte rest token error failed => cases read
  | case3 state byte rest token next stepped ih =>
      exact ih (step_sound sound (Token.read_valid byte rest) stepped) read

end ParseState

/-- The expression of a pattern is well-formed, and its groups are numbered from one. -/
theorem parse_numbered {pattern : List UInt8} {flags : Flags} {expr : Expr} {groups : Nat}
    (parsed : parse pattern flags = .ok (expr, groups)) : expr.Numbered groups := by
  unfold parse at parsed
  split at parsed
  · cases parsed
  · split at parsed
    · cases parsed
      exact ⟨trivial, rfl, by decide, by simp [Expr.references], 0, Nat.zero_le _, rfl⟩
    · exact ParseState.readAll_numbered pattern (ParseState.initial_sound flags) parsed

end ByteRegex
