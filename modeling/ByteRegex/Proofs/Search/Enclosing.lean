import ByteRegex.Proofs.Grammar.Depth
import ByteRegex.Proofs.Grammar.Splicing
import ByteRegex.Proofs.Search.Caseless

/-!
# Patterns in groups

A pattern in a group that sets or clears flags is compiled as it would be alone with the flags set
or cleared. Nothing of a pattern is read in another way because a parenthesis follows it.
-/

namespace ByteRegex

/-- The flags that letters stand for are set, or cleared. -/
def Flags.toggled (flags : Flags) (enable : Bool) (letters : List UInt8) : Flags :=
  { flags with
    caseless := if letters.contains 'i'.toUInt8 then enable else flags.caseless
    newline := if letters.contains 'n'.toUInt8 then enable else flags.newline }

namespace Grammar

/-- What stands between the parenthesis of a group and its expression if it does no more than set or
clear flags, and the flags inside the group. -/
inductive Toggles (flags : Flags) : List UInt8 → Flags → Prop where
  | nothing : Toggles flags ['?'.toUInt8, ':'.toUInt8] flags
  | letters (enable : Bool) {letters : List UInt8} (filled : letters ≠ [])
      (known : ∀ letter ∈ letters, IsFlagLetter letter) :
      Toggles flags
        ('?'.toUInt8 :: ((if enable then [] else ['-'.toUInt8]) ++ letters ++ [':'.toUInt8]))
        (flags.toggled enable letters)

/-- A text in a group of its own. -/
def parenthesized (header text : List UInt8) : List UInt8 :=
  '('.toUInt8 :: (header ++ (text ++ [')'.toUInt8]))

theorem toggled_eq (flags : Flags) (enable : Bool) (letters : List UInt8) :
    (if enable then flags.union (flagsOf letters) else flags.difference (flagsOf letters)) =
      flags.toggled enable letters := by
  simp only [Flags.toggled, Flags.union, Flags.difference, flagsOf, Flags.none, Bool.or_false,
    Bool.not_false, Bool.and_true]
  cases enable <;> cases letters.contains 'i'.toUInt8 <;> cases letters.contains 'n'.toUInt8 <;>
    simp

/-- A header that toggles flags is read as such. The group that it opens is a bare one. -/
theorem Toggles.exists_header {flags other : Flags} {header : List UInt8}
    (toggles : Toggles flags header other) :
    ∃ opening, (∀ rest, Header (header ++ rest) opening rest) ∧
      ∀ groups, ParseState.enclosed flags groups opening = .ok (.bare, other, groups) := by
  cases toggles with
  | nothing => exact ⟨.enclosing, .enclosing, fun _ => rfl⟩
  | @letters enable letters filled known =>
      refine ⟨.inline enable (flagsOf letters), fun rest => ?_, fun groups => ?_⟩
      · have colon : ∀ next ∈ (':'.toUInt8 :: rest).head?, ¬IsFlagLetter next := by
          rintro next ⟨⟩
          unfold IsFlagLetter
          decide
        rw [List.cons_append, List.append_assoc]
        exact .inline enable filled known colon (.inl rfl)
      · rw [← toggled_eq]
        rfl

theorem Toggles.verbatim {flags other : Flags} {header : List UInt8}
    (toggles : Toggles flags header other) : other.verbatim = flags.verbatim := by
  cases toggles <;> rfl

theorem Lexemes.reads {pattern : List UInt8} {found : List Token}
    (lexemes : Lexemes pattern found) : Reads pattern found [] := by
  induction lexemes with
  | nil => exact .nil []
  | cons lexeme _ ih => exact .cons lexeme ih

/-- A pattern in a group has its own tokens between those of the group. -/
theorem tokens_enclosed {pattern header : List UInt8} {found : List Token} {opening : Opening}
    (lexemes : Lexemes pattern found) (headed : ∀ rest, Header (header ++ rest) opening rest) :
    tokens (parenthesized header pattern) =
      .opening (.ok opening) :: (found ++ [.closing]) := by
  have spelled : Reads (pattern ++ []) found [] := by
    rw [List.append_nil]
    exact lexemes.reads
  have inside : Reads (pattern ++ [')'.toUInt8]) found [')'.toUInt8] :=
    spelled.splice (.closing [] [])
  have whole : Reads (parenthesized header pattern)
      (.opening (.ok opening) :: (found ++ [.closing])) [] :=
    .cons (.opening (headed _)) (inside.append (.one (.closing [])))
  rw [whole.tokens_eq, tokens, List.append_nil]

/-- Outside all groups the parser is in a bare frame. -/
theorem Outline.Reads.enclosure_eq_bare {capturing : Bool} {outline : Outline} {read : List Token}
    (reads : outline.Reads capturing read) (outermost : outline.outer = []) :
    outline.layer.enclosure = .bare := by
  obtain ⟨_, _, _, _, _, _, around, _⟩ := reads
  rw [outermost] at around
  generalize outline.layer.enclosure = enclosure at around
  cases around
  rfl

end Grammar

open Grammar

namespace ParseState

variable {state next : ParseState}

theorem one_le_nesting : 1 ≤ Capacity.nesting := by decide

/-- A group that opens a pattern is read like the pattern, with a bare frame around. -/
theorem openGroup_initial {flags other : Flags} {opening : Opening}
    (encloses : enclosed flags 0 opening = .ok (.bare, other, 0)) :
    (initial flags).openGroup (.ok opening) =
      .ok ((initial other).below [.start .bare flags]) := by
  have room : ¬Capacity.nesting ≤ (initial flags).outer.length := Nat.not_le_of_lt one_le_nesting
  rw [openGroup_of_nothing rfl, if_neg room]
  show (enclosed flags 0 opening).map _ = _
  rw [encloses]
  rfl

/-- Where a pattern could end, a bare group closes with the expression of the pattern. -/
theorem closeGroup_of_finish {body : Expr} {groups : Nat}
    (bare : state.outer = [] → state.frame.enclosure = .bare)
    (finished : state.finish = .ok (body, groups)) (parent : Frame) :
    ∃ closed counters, (state.below [parent]).closeGroup =
      .ok ⟨parent.await (.atom (.compound body)), [], groups, closed, counters⟩ := by
  obtain ⟨settled, found, rest⟩ := exists_of_bind finished
  obtain ⟨whole, read, rest⟩ := exists_of_bind rest
  split at rest
  · rename_i empty
    cases rest
    have outermost : settled.outer = [] := List.isEmpty_iff.mp empty
    have enclosed : (settled.below [parent]).frame.enclosure = .bare := by
      obtain ⟨_, _, rfl⟩ := shape_of_settle found
      exact bare outermost
    have finishes : (settled.below [parent]).finishGroup body =
        .ok (.compound body, settled.below [parent]) := by
      simp only [finishGroup, Frame.atom, enclosed, Except.map]
    have around : (settled.below [parent]).outer = [parent] := by
      rw [below, outermost]
      rfl
    refine ⟨settled.closed, settled.counters, ?_⟩
    show (state.below [parent]).settle.bind _ = _
    rw [settle_below found]
    show settled.frame.expression.bind _ = _
    rw [read]
    simp only [Except.bind, around, finishes]
    rfl
  · obtain ⟨_, _, rest⟩ := exists_of_bind rest
    cases rest

/-- The frame that a pattern is read in is a bare one at its end. -/
theorem enclosure_of_foldlM {flags : Flags} {pattern : List UInt8}
    (ran : (tokens pattern).foldlM step (initial flags) = .ok next) (outermost : next.outer = []) :
    next.frame.enclosure = .bare := by
  have follows := (initial flags).foldlM_follows
    (forall_mem_tokens Token.read_keepsCapturing pattern)
  have accepted := follows.accepted next ran
  rw [outline_initial] at accepted
  have reads := (Outline.Reads.initial flags.capturing).run accepted
  exact reads.enclosure_eq_bare (next.outline_outer outermost)

end ParseState

open ParseState

section Enclosing

variable {pattern header : List UInt8} {flags other : Flags}

/-- In a group that toggles flags a pattern has the expression that it has alone. -/
theorem parse_enclosed (spelled : flags.verbatim = false) (toggles : Toggles flags header other)
    (lexemes : Lexemes pattern (tokens pattern)) {body : Expr} {groups : Nat}
    (parsed : parse pattern other = .ok (body, groups)) :
    nesting pattern ≤ Capacity.nesting ∧
      parse (parenthesized header pattern) flags =
        if nesting pattern < Capacity.nesting then .ok (.sequence body .empty, groups)
        else .error .tooComplex := by
  obtain ⟨opening, headed, encloses⟩ := toggles.exists_header
  have plain : other.verbatim = false := toggles.verbatim.trans spelled
  unfold parse at parsed
  split at parsed
  · cases parsed
  rw [plain, if_neg Bool.false_ne_true, readAll_eq_foldlM] at parsed
  obtain ⟨last, ran, finished⟩ := exists_of_bind parsed
  let parent := Frame.start .bare flags
  have opens : (initial flags).step (.opening (.ok opening)) =
      .ok ((initial other).below [parent]) := openGroup_initial (encloses 0)
  have inside : (tokens pattern).foldlM step ((initial other).below [parent]) =
      if nesting pattern < Capacity.nesting then .ok (last.below [parent])
      else .error .tooComplex :=
    foldlM_below ran one_le_nesting
  obtain ⟨closed, counters, closes⟩ :=
    closeGroup_of_finish (enclosure_of_foldlM ran) finished parent
  refine ⟨deepest_le ran (Nat.zero_le _), ?_⟩
  have reading : parse (parenthesized header pattern) flags =
      (initial flags).readAll (parenthesized header pattern) := by
    rw [parse, spelled]
    rfl
  rw [reading, readAll_eq_foldlM, tokens_enclosed lexemes headed, List.foldlM_cons, opens]
  show List.foldlM step _ (tokens pattern ++ [.closing]) >>= finish = _
  rw [List.foldlM_append, inside]
  by_cases fits : nesting pattern < Capacity.nesting
  · rw [if_pos fits, if_pos fits]
    show [Token.closing].foldlM step (last.below [parent]) >>= finish = _
    have steps : (last.below [parent]).step .closing = _ := closes
    rw [foldlM_one, steps]
    rfl
  · rw [if_neg fits, if_neg fits]
    rfl

/-- A pattern in a group that sets or clears flags compiles to the code it has under those flags,
with as many groups, unless its own groups are nested as deep as they may be. -/
theorem Program.compile_enclosed (spelled : flags.verbatim = false)
    (toggles : Toggles flags header other) {program : Program}
    (compiled : compile pattern other = .ok program) :
    nesting pattern ≤ Capacity.nesting ∧
      compile (parenthesized header pattern) flags =
        if nesting pattern < Capacity.nesting then .ok { program with flags }
        else .error .tooComplex := by
  have lexemes := lexemes_of_compile (toggles.verbatim.trans spelled) compiled
  obtain ⟨expr, parsed, _, _⟩ := implements_of_compile compiled
  obtain ⟨level, encloses⟩ := parse_enclosed spelled toggles lexemes parsed
  refine ⟨level, ?_⟩
  simp only [compile, assemble, parsed] at compiled
  simp only [compile, assemble, encloses]
  by_cases fits : nesting pattern < Capacity.nesting
  · rw [if_pos fits, if_pos fits]
    have same : (Expr.sequence expr .empty).emit CodeBuffer.empty = expr.emit CodeBuffer.empty := by
      rw [Expr.emit_sequence]
      cases expr.emit CodeBuffer.empty <;> rfl
    dsimp only
    rw [same]
    cases emitted : expr.emit CodeBuffer.empty with
    | error error =>
        rw [emitted] at compiled
        cases compiled
    | ok buffer =>
        rw [emitted] at compiled
        have code := congrArg Program.code (Except.ok.inj compiled)
        exact congrArg (fun code => Except.ok (Program.mk code program.groups flags)) code
  · rw [if_neg fits, if_neg fits]
    rfl

/-- An octal escape takes more digits, but no parenthesis. -/
theorem Program.compile_enclosed_octal :
    ∃ program, compile "(b)|c\\03".toUTF8.toList .default = .ok program ∧
      nesting "(b)|c\\03".toUTF8.toList = 1 ∧
      compile (parenthesized (['?', '-', 'i', ':'].map Char.toUInt8) "(b)|c\\03".toUTF8.toList)
          { Flags.default with caseless := true } =
        .ok { program with flags := { Flags.default with caseless := true } } := by
  have compiled : compile "(b)|c\\03".toUTF8.toList .default =
      .ok ⟨#[25, 12, 0, 20, 1, 0, 3, 98, 0, 21, 1, 0, 24, 5, 0, 5, 2, 0, 99, 3, 0], 1, .default⟩ :=
    compile_of_toOption (by decide +kernel)
  have once : nesting "(b)|c\\03".toUTF8.toList = 1 := by decide +kernel
  have toggles : Toggles { Flags.default with caseless := true }
      (['?', '-', 'i', ':'].map Char.toUInt8) .default :=
    .letters false (List.cons_ne_nil 'i'.toUInt8 []) fun _ member =>
      .inl (List.mem_singleton.mp member)
  have encloses := (compile_enclosed rfl toggles compiled).2
  rw [once, if_pos (by decide)] at encloses
  exact ⟨_, compiled, once, encloses⟩

end Enclosing

end ByteRegex
