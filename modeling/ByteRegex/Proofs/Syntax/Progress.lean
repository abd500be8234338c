import ByteRegex.Proofs.Grammar.Depth
import ByteRegex.Proofs.Grammar.Sets
import ByteRegex.Proofs.Grammar.Suffixes
import ByteRegex.Proofs.Syntax.Parse

/-!
# Progress of the parser

Every token leaves a proper suffix of the text that it is read from, well-formed or not, and adds
one part to the expressions that are being read or one group to those that are open, but not both.
So parsing ends after as many tokens as there are bytes at most, and no part is read without one.
-/

namespace ByteRegex

open List (suffix_cons suffix_refl)

/-! ## What tokens leave -/

namespace Opening

theorem readLetters_suffix (met : Flags) (rest : List UInt8) :
    (readLetters met rest).2 <:+ rest := by
  induction rest generalizing met with
  | nil => exact suffix_refl _
  | cons letter rest ih =>
      rw [readLetters]
      split
      · exact (ih _).trans (suffix_cons _ _)
      · exact suffix_refl _

theorem skipColon_suffix (rest : List UInt8) : skipColon rest <:+ rest := by
  cases rest with
  | nil => exact suffix_refl _
  | cons byte rest =>
      rw [skipColon]
      split
      · exact suffix_cons _ _
      · exact suffix_refl _

theorem readFlags_suffix (enable : Bool) (rest : List UInt8) :
    (readFlags enable rest).2 <:+ rest := by
  have letters := readLetters_suffix .none rest
  rw [readFlags]
  dsimp only
  split
  · exact letters
  · exact (skipColon_suffix _).trans letters

theorem readBehind_suffix (rest : List UInt8) : (readBehind rest).2 <:+ rest := by
  cases rest with
  | nil => exact suffix_refl _
  | cons byte rest =>
      rw [readBehind]
      split
      · exact suffix_cons _ _
      · split <;> exact suffix_cons _ _

theorem readSpecial_suffix (rest : List UInt8) : (readSpecial rest).2 <:+ rest := by
  cases rest with
  | nil => exact suffix_refl _
  | cons byte rest =>
      rw [readSpecial]
      repeat' split
      all_goals first
        | exact suffix_cons _ _
        | exact (readBehind_suffix rest).trans (suffix_cons _ _)
        | exact (readFlags_suffix false rest).trans (suffix_cons _ _)
        | exact readFlags_suffix true (byte :: rest)

theorem read_suffix (rest : List UInt8) : (read rest).2 <:+ rest := by
  cases rest with
  | nil => exact suffix_refl _
  | cons byte rest =>
      rw [read]
      split
      · exact (readSpecial_suffix rest).trans (suffix_cons _ _)
      · exact suffix_refl _

end Opening

namespace Quantifier

theorem withGreed_suffix (bounds : Except CompileError (Nat × Option Nat)) (rest : List UInt8) :
    (withGreed bounds rest).2 <:+ rest := by
  simp only [withGreed, readGreed]
  repeat' split
  all_goals first
    | exact suffix_refl _
    | exact suffix_cons _ _

theorem read_suffix (byte : UInt8) (rest : List UInt8) : (read byte rest).2 <:+ rest := by
  unfold read
  split
  · exact withGreed_suffix _ _
  · split
    · exact withGreed_suffix _ _
    · split
      · exact withGreed_suffix _ _
      · have kept : rest.dropWhile (· ≠ 0x7d) <:+ rest := List.dropWhile_suffix _
        split
        · exact List.nil_suffix
        · rename_i closing after found
          rw [found] at kept
          exact (withGreed_suffix _ after).trans ((suffix_cons _ _).trans kept)

end Quantifier

namespace Token

theorem readEscape_suffix (rest : List UInt8) : (readEscape rest).2 <:+ rest := by
  cases rest with
  | nil => exact suffix_refl _
  | cons letter rest =>
      simp only [readEscape]
      repeat' split
      all_goals first
        | exact suffix_cons _ _
        | exact (Grammar.readByte_sound ‹_›).suffix

/-- A token of any kind leaves a part of what follows its first byte. -/
theorem read_suffix (byte : UInt8) (rest : List UInt8) : (read byte rest).2 <:+ rest := by
  let fits (result : Token × List UInt8) : Prop := result.2 <:+ rest
  have same (token : Token) : fits (token, rest) := suffix_refl _
  show fits (read byte rest)
  unfold read
  refine iteInduction (fun _ => readEscape_suffix rest) fun _ => ?_
  refine iteInduction (fun _ => Opening.read_suffix rest) fun _ => ?_
  refine iteInduction (fun _ => same _) fun _ => ?_
  refine iteInduction (fun _ => same _) fun _ => ?_
  refine iteInduction (fun _ => ?_) fun _ => ?_
  · cases found : Bracket.read rest with
    | ok result => exact (Grammar.readSet_sound found).suffix
    | error error => exact same _
  refine iteInduction (fun _ => same _) fun _ => ?_
  refine iteInduction (fun _ => same _) fun _ => ?_
  refine iteInduction (fun _ => same _) fun _ => ?_
  refine iteInduction (fun _ => Quantifier.read_suffix byte rest) fun _ => ?_
  refine iteInduction (fun _ => same _) fun _ => ?_
  exact iteInduction (fun _ => same _) fun _ => same _

end Token

theorem length_tokens_le (pattern : List UInt8) : (tokens pattern).length ≤ pattern.length := by
  fun_induction tokens pattern with
  | case1 => exact Nat.le_refl _
  | case2 byte rest found ih =>
      exact Nat.succ_le_succ (Nat.le_trans ih (Token.read_length byte rest))

/-! ## Parts -/

/-- Whether something waits for a quantifier. -/
def Pending.parts : Pending → Nat
  | .nothing => 0
  | _ => 1

theorem Pending.parts_le (pending : Pending) : pending.parts ≤ 1 := by
  unfold parts
  split
  · exact Nat.zero_le _
  · exact Nat.le_refl _

/-- The parts of the current branch. -/
def Frame.parts (frame : Frame) : Nat := frame.pieces.length + frame.pending.parts

/-- The parts of all branches that are being read. -/
def partsOf : List Frame → Nat
  | [] => 0
  | frame :: outer => frame.parts + partsOf outer

namespace ParseState

variable {state settled next : ParseState}

/-- The parts that are being read and the groups that are open. -/
def extent (state : ParseState) : Nat := partsOf (state.frame :: state.outer) + state.outer.length

theorem parts_addLiterals (frame : Frame) {bytes : List UInt8} (filled : bytes ≠ []) :
    (frame.addLiterals bytes).parts = frame.pieces.length + 1 := by
  match bytes with
  | [] => exact absurd rfl filled
  | [_] | _ :: _ :: _ => rfl

theorem parts_of_addLoop {body : Expr} {quantifier : Quantifier}
    (looped : state.addLoop body quantifier = .ok next) :
    next.frame.parts = state.frame.pieces.length + 1 := by
  unfold addLoop at looped
  dsimp only at looped
  split at looped
  · cases looped
  · obtain ⟨_, _, rfl⟩ := exists_of_map looped
    rfl

/-- Settling makes a piece of what was pending. -/
theorem parts_of_settle (done : state.settle = .ok settled) :
    settled.frame.parts = state.frame.parts := by
  have held : state.frame.parts = state.frame.pieces.length + state.frame.pending.parts := rfl
  unfold settle at done
  split at done <;> rename_i pending <;> rw [pending] at held <;> rw [held]
  · cases done
    exact held
  · cases done
    exact parts_addLiterals _ (List.cons_ne_nil _ _)
  · cases done
    rfl
  · cases done
    rfl
  · cases done
    rfl
  · cases done
    rfl
  · split at done
    · cases done
      rfl
    · exact parts_of_addLoop done

theorem pieces_of_settle (done : state.settle = .ok settled) :
    settled.frame.pieces.length = state.frame.parts := by
  have nothing := settle_pending done
  rw [← parts_of_settle done, Frame.parts, nothing]
  rfl

/-- What is awaited behind settled pieces is one part more. -/
theorem parts_await_of_settle (done : state.settle = .ok settled) (pending : Pending) :
    (settled.frame.await pending).parts ≤ state.frame.parts + 1 := by
  rw [← pieces_of_settle done]
  exact Nat.add_le_add_left pending.parts_le _

theorem parts_of_addAtom {atom : Atom} (added : state.addAtom atom = .ok next) :
    next.frame.parts ≤ state.frame.parts + 1 := by
  obtain ⟨settled, done, rfl⟩ := exists_of_map added
  exact parts_await_of_settle done _

theorem parts_of_addLiteral {byte : UInt8} (added : state.addLiteral byte = .ok next) :
    next.frame.parts ≤ state.frame.parts + 1 := by
  unfold addLiteral at added
  split at added
  · rename_i pending
    cases added
    exact Nat.add_le_add_left (Nat.le_add_left _ _) _
  · obtain ⟨settled, done, rfl⟩ := exists_of_map added
    exact parts_await_of_settle done _

/-- A quantifier may cut the last byte off a literal. -/
theorem parts_of_addQuantifier {read : Except CompileError Quantifier}
    (added : state.addQuantifier read = .ok next) :
    next.frame.parts ≤ state.frame.parts + 1 := by
  have held : state.frame.parts = state.frame.pieces.length + state.frame.pending.parts := rfl
  unfold addQuantifier at added
  split at added <;> try cases added
  · rename_i last earlier pending
    obtain ⟨quantifier, _, rfl⟩ := exists_of_map added
    rw [held, pending]
    match earlier with
    | [] => exact Nat.le_succ _
    | [_] | _ :: _ :: _ => exact Nat.le_refl _
  · obtain ⟨quantifier, _, rfl⟩ := exists_of_map added
    exact Nat.add_le_add_left (Nat.le_add_left _ _) _
  · obtain ⟨quantifier, _, rfl⟩ := exists_of_map added
    exact Nat.add_le_add_left (Nat.le_add_left _ _) _
  · cases read <;> cases added

theorem parts_of_addBackReference {group : Nat} (added : state.addBackReference group = .ok next) :
    next.frame.parts ≤ state.frame.parts + 1 := by
  obtain ⟨settled, done, referred⟩ := exists_of_bind added
  dsimp only at referred
  split at referred
  · cases referred
    exact parts_await_of_settle done _
  · cases referred

theorem parts_of_closeBranch (ended : state.closeBranch = .ok next) :
    next.frame.parts ≤ state.frame.parts + 1 := by
  obtain ⟨settled, done, branched⟩ := exists_of_bind ended
  obtain ⟨frame, closed, rfl⟩ := exists_of_map branched
  have nothing := settle_pending done
  unfold Frame.closeBranch at closed
  dsimp only at closed
  split at closed
  · cases closed
  · split at closed
    · cases closed
    · cases closed
      show 0 + settled.frame.pending.parts ≤ _
      rw [nothing]
      exact Nat.zero_le _

theorem extent_of_openGroup {read : Except CompileError Opening}
    (opened : state.openGroup read = .ok next) : next.extent ≤ state.extent + 1 := by
  rw [openGroup_eq_settle] at opened
  obtain ⟨settled, done, opened⟩ := exists_of_bind opened
  have before := parts_of_settle done
  rw [openGroup_of_nothing (settle_pending done)] at opened
  split at opened
  · cases opened
  · obtain ⟨⟨enclosure, flags, groups⟩, _, rfl⟩ := exists_of_map opened
    have fresh : (Frame.start enclosure flags).parts = 0 := rfl
    simp only [extent, partsOf, List.length_cons, outer_of_settle done, fresh, before]
    omega

theorem extent_of_closeGroup (ended : state.closeGroup = .ok next) :
    next.extent ≤ state.extent + 1 := by
  obtain ⟨parent, outer, same⟩ := exists_parent_of_closeGroup ended
  obtain ⟨atom, groups, closed, counters, closes⟩ := exists_of_closeGroup same ended
  have whole : state.within (parent :: outer) = state := by
    rw [← same]
    rfl
  cases ended.symm.trans (whole ▸ closes parent outer)
  simp only [extent, same, partsOf, List.length_cons]
  have grown : (parent.await (.atom atom)).parts ≤ parent.parts + 1 :=
    Nat.add_le_add_right (Nat.le_add_right _ _) 1
  omega

/-- A token brings one part or one group at most. -/
theorem extent_of_step {token : Token} (stepped : state.step token = .ok next) :
    next.extent ≤ state.extent + 1 := by
  have inside (opens : ∀ read, token ≠ .opening read) (closes : token ≠ .closing)
      (grown : next.frame.parts ≤ state.frame.parts + 1) : next.extent ≤ state.extent + 1 := by
    simp only [extent, partsOf, outer_of_step opens closes stepped]
    omega
  cases token with
  | opening read => exact extent_of_openGroup stepped
  | closing => exact extent_of_closeGroup stepped
  | literal byte => exact inside nofun nofun (parts_of_addLiteral stepped)
  | bar => exact inside nofun nofun (parts_of_closeBranch stepped)
  | backReference group => exact inside nofun nofun (parts_of_addBackReference stepped)
  | quantifier read => exact inside nofun nofun (parts_of_addQuantifier stepped)
  | malformed error =>
      obtain ⟨_, _, failed⟩ := exists_of_bind stepped
      cases failed
  | dot | bracket bracket | inClass kind | notInClass kind | caret | dollar | assertion condition =>
      exact inside nofun nofun (parts_of_addAtom stepped)

/-- No token opens more groups than there may be. -/
theorem depth_of_step {token : Token} (stepped : state.step token = .ok next)
    (room : state.outer.length ≤ Capacity.nesting) : next.outer.length ≤ Capacity.nesting := by
  have none : state.outer.length + ([] : List Frame).length ≤ Capacity.nesting := room
  have deep := deepest_le ((foldlM_one state token).trans stepped) room
  rw [(step_below stepped none).1]
  exact Nat.le_trans (Nat.le_max_right _ _) deep

/-! ## Runs -/

/-- The parser goes from one place of a pattern to another, token after token. A place is what the
parser holds and the text behind it. -/
inductive Run : ParseState → List UInt8 → ParseState → List UInt8 → Prop where
  | done (state : ParseState) (rest : List UInt8) : Run state rest state rest
  | step {state middle last : ParseState} {byte : UInt8} {rest behind : List UInt8}
      (stepped : state.step (Token.read byte rest).1 = .ok middle)
      (later : Run middle (Token.read byte rest).2 last behind) :
      Run state (byte :: rest) last behind

namespace Run

variable {last : ParseState} {rest behind : List UInt8}

theorem suffix (run : Run state rest last behind) : behind <:+ rest := by
  induction run with
  | done => exact suffix_refl _
  | step _ _ ih => exact ih.trans ((Token.read_suffix _ _).trans (suffix_cons _ _))

/-- Parts and groups are paid for with bytes. -/
theorem extent (run : Run state rest last behind) :
    last.extent + behind.length ≤ state.extent + rest.length := by
  induction run with
  | done => exact Nat.le_refl _
  | @step _ _ _ byte rest _ stepped _ ih =>
      have grown := extent_of_step stepped
      have shorter := Token.read_length byte rest
      rw [List.length_cons]
      omega

/-- Between places in the same group, the parts are those of its branch. -/
theorem parts (run : Run state rest last behind) (same : last.outer = state.outer) :
    last.frame.parts + behind.length ≤ state.frame.parts + rest.length := by
  have paid := run.extent
  simp only [ParseState.extent, partsOf, same] at paid
  omega

/-- What every token that can be read preserves holds after a run. -/
theorem invariant (run : Run state rest last behind) (holds : ParseState → Prop)
    (preserved : ∀ {state next : ParseState} (byte : UInt8) (rest : List UInt8), holds state →
      state.step (Token.read byte rest).1 = .ok next → holds next)
    (start : holds state) : holds last := by
  induction run with
  | done => exact start
  | step stepped _ ih => exact ih (preserved _ _ start stepped)

theorem depth (run : Run state rest last behind) (room : state.outer.length ≤ Capacity.nesting) :
    last.outer.length ≤ Capacity.nesting :=
  run.invariant (fun state => state.outer.length ≤ Capacity.nesting)
    (fun _ _ room stepped => depth_of_step stepped room) room

theorem sound (run : Run state rest last behind) (sound : state.Sound) : last.Sound :=
  run.invariant Sound (fun byte rest sound => step_sound sound (Token.read_valid byte rest)) sound

end Run

/-- Reading comes to the end of the text or to a token that is refused. -/
theorem exists_run (state : ParseState) (pattern : List UInt8) :
    ∃ last behind, Run state pattern last behind ∧
      (behind = [] ∧ state.readAll pattern = last.finish ∨
        ∃ byte rest error, behind = byte :: rest ∧
          last.step (Token.read byte rest).1 = .error error ∧
          state.readAll pattern = .error error) := by
  fun_induction readAll state pattern with
  | case1 state => exact ⟨state, [], .done _ _, .inl ⟨rfl, rfl⟩⟩
  | case2 state byte rest token error refused =>
      exact ⟨state, byte :: rest, .done _ _, .inr ⟨byte, rest, error, rfl, refused, rfl⟩⟩
  | case3 state byte rest token next stepped ih =>
      obtain ⟨last, behind, run, ended⟩ := ih
      exact ⟨last, behind, .step stepped run, ended⟩

end ParseState

end ByteRegex
