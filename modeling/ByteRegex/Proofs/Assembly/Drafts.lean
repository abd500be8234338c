import ByteRegex.Proofs.Assembly.Passes
import ByteRegex.Proofs.Assembly.Sealing

/-!
# Drafts

What is in a buffer while a pattern is assembled. The finished branches of alternations that are
still open come first, each with a jump behind it that waits for the end of its alternation. What is
being worked on stands behind the latest of these jumps. Something is inserted only there, between
lines that are sealed on either side, so that no jump has to cross the place.
-/

namespace ByteRegex

/-- The code that edits make. -/
def Edit.code (edits : List Edit) : Code := (applyAll CodeBuffer.empty edits).code

theorem Edit.size_code (edits : List Edit) : (code edits).size = growths edits := by
  have grown : (code edits).size = 0 + growths edits := size_applyAll CodeBuffer.empty edits
  rw [grown, Nat.zero_add]

structure Draft where
  /-- What stands in front of each waiting jump, from the waiting jump before it on, latest first. -/
  waiting : List (List Line)
  /-- What stands behind the latest waiting jump. -/
  current : List Line

namespace Draft

/-- The lines up to the latest waiting jump. A jump that waits has no distance yet. -/
def settled : List (List Line) → List Line
  | [] => []
  | ahead :: earlier => settled earlier ++ (ahead ++ [.plain .jump [0]])

def lines (draft : Draft) : List Line := settled draft.waiting ++ draft.current

def empty : Draft := ⟨[], []⟩

/-- What an edit makes of a draft. -/
inductive Takes : Draft → Edit → Draft → Prop where
  | append {waiting : List (List Line)} {current more : List Line}
      (complete : ∀ line ∈ more, line.Complete) :
      Takes ⟨waiting, current⟩ (.append (Line.encodeAll more)) ⟨waiting, current ++ more⟩
  | wait {waiting : List (List Line)} {current : List Line} :
      Takes ⟨waiting, current⟩ (.append (Opcode.jump.encode [0])) ⟨current :: waiting, []⟩
  | insert {waiting : List (List Line)} {front back more : List Line}
      (ahead : Line.Sealed (settled waiting ++ front)) (behind : Line.Sealed back)
      (complete : ∀ line ∈ more, line.Complete) :
      Takes ⟨waiting, front ++ back⟩
        (.insert (Line.extent (settled waiting ++ front)) (Line.encodeAll more))
        ⟨waiting, front ++ (more ++ back)⟩
  | land {waiting : List (List Line)} {ahead current : List Line} {leave : Int16}
      (across : leave.toInt = Line.extent current) :
      Takes ⟨ahead :: waiting, current⟩
        (.patch (Line.extent (settled waiting ++ ahead) + 1) leave)
        ⟨waiting, ahead ++ .plain .jump [leave] :: current⟩

/-- The drafts that edits make of an empty one. -/
inductive Made : List Edit → Draft → Prop where
  | start : Made [] empty
  | edit {edits : List Edit} {edit : Edit} {draft next : Draft} (made : Made edits draft)
      (takes : Takes draft edit next) : Made (edits ++ [edit]) next

variable {draft next : Draft} {edits later : List Edit} {edit : Edit}

/-- The distance of a jump behind some lines is overwritten. -/
theorem toList_patch_jump {buffer : CodeBuffer} {front back : List Line} {old : Int16}
    (held : buffer.code.toList = Line.encodeAll (front ++ .plain .jump [old] :: back))
    (leave : Int16) :
    (buffer.patch (Line.extent front + 1) leave).code.toList =
      Line.encodeAll (front ++ .plain .jump [leave] :: back) := by
  have split : ∀ distance : Int16, Line.encodeAll (front ++ .plain .jump [distance] :: back) =
      (Line.encodeAll front ++ [Opcode.jump.toByte]) ++
        (Operand.toBytes distance ++ Line.encodeAll back) := by
    intro distance
    simp [Line.encodeAll_append, Line.encodeAll_cons, Line.encode, Line.plain, Opcode.encode]
  rw [split] at held ⊢
  have patched := CodeBuffer.toList_patch leave held
  rwa [List.length_append] at patched

namespace Takes

/-- A buffer is edited as its draft is. -/
theorem code {buffer : CodeBuffer} (takes : Takes draft edit next)
    (held : buffer.code.toList = Line.encodeAll draft.lines) :
    (Edit.apply buffer edit).code.toList = Line.encodeAll next.lines := by
  cases takes with
  | @append waiting current more complete =>
      show (buffer.append _).code.toList = _
      rw [CodeBuffer.toList_append, held, ← Line.encodeAll_append, lines, lines, List.append_assoc]
  | @wait waiting current =>
      show (buffer.append _).code.toList = _
      rw [CodeBuffer.toList_append, held, lines, lines, settled, List.append_nil, ← List.append_assoc,
        Line.encodeAll_append _ [.plain .jump [0]]]
      rfl
  | @insert waiting front back more ahead behind complete =>
      show (buffer.insert _ _).code.toList = _
      rw [lines, ← List.append_assoc, Line.encodeAll_append _ back] at held
      rw [CodeBuffer.toList_insert, held, Line.extent, List.take_left, List.drop_left]
      simp only [lines, Line.encodeAll_append, List.append_assoc]
  | @land waiting ahead current leave across =>
      show (buffer.patch _ _).code.toList = _
      have waits : buffer.code.toList =
          Line.encodeAll ((settled waiting ++ ahead) ++ .plain .jump [0] :: current) := by
        rw [held, lines, settled]
        simp only [List.append_assoc, List.cons_append, List.nil_append]
      rw [lines, ← List.append_assoc]
      exact toList_patch_jump waits leave

theorem complete (takes : Takes draft edit next) (complete : ∀ line ∈ draft.lines, line.Complete) :
    ∀ line ∈ next.lines, line.Complete := by
  have jump : ∀ distance : Int16, (Line.plain .jump [distance]).Complete := fun _ => ⟨rfl, rfl⟩
  cases takes with
  | append fresh => 
      rw [lines, ← List.append_assoc]
      exact List.forall_mem_append.mpr ⟨complete, fresh⟩
  | wait =>
      simp only [lines, settled, List.forall_mem_append, List.forall_mem_singleton] at complete ⊢
      exact ⟨⟨complete.1, complete.2, jump 0⟩, List.forall_mem_nil _⟩
  | insert ahead behind fresh =>
      simp only [lines, List.forall_mem_append] at complete ⊢
      exact ⟨complete.1, complete.2.1, fresh, complete.2.2⟩
  | @land waiting ahead current leave across =>
      simp only [lines, settled, List.forall_mem_append, List.forall_mem_cons] at complete ⊢
      exact ⟨complete.1.1, complete.1.2.1, jump leave, complete.2⟩

/-- A waiting jump has waited before, or it is the one that is appended. -/
theorem waited (takes : Takes draft edit next) {ahead : List Line} {earlier : List (List Line)}
    (waits : ahead :: earlier <:+ next.waiting) :
    ahead :: earlier <:+ draft.waiting ∨
      draft = ⟨earlier, ahead⟩ ∧ edit = .append (Opcode.jump.encode [0]) := by
  cases takes with
  | append | insert => exact .inl waits
  | wait =>
      obtain same | before := List.suffix_cons_iff.mp waits
      · cases same
        exact .inr ⟨rfl, rfl⟩
      · exact .inl before
  | land => exact .inl (waits.trans (List.suffix_cons _ _))

end Takes

namespace Made

theorem code (made : Made edits draft) :
    (Edit.code edits).toList = Line.encodeAll draft.lines ∧ ∀ line ∈ draft.lines, line.Complete := by
  induction made with
  | start => exact ⟨rfl, List.forall_mem_nil _⟩
  | @edit edits edit draft next made takes ih =>
      rw [Edit.code, Edit.applyAll_append]
      exact ⟨takes.code ih.1, takes.complete ih.2⟩

/-- A draft has as many bytes as have been brought. -/
theorem extent (made : Made edits draft) : Line.extent draft.lines = Edit.growths edits := by
  rw [Line.extent, ← made.code.1, Array.length_toList, Edit.size_code]

/-- Every edit has been made to a draft. -/
theorem split (made : Made edits draft) {front back : List Edit}
    (parts : edits = front ++ edit :: back) :
    ∃ before after, Made front before ∧ Takes before edit after := by
  induction made generalizing back with
  | start => cases front <;> cases parts
  | @edit edits last draft next made takes ih =>
      rcases List.eq_nil_or_concat back with rfl | ⟨rest, final, rfl⟩
      · obtain ⟨rfl, same⟩ := List.append_inj' parts rfl
        cases same
        exact ⟨draft, next, made, takes⟩
      · have longer : edits ++ [last] = (front ++ edit :: rest) ++ [final] := by simpa using parts
        exact ih (List.append_inj' longer rfl).1

/-- Straight lines are appended one by one. -/
theorem append (made : Made edits draft) {more : List Line} (complete : ∀ line ∈ more, line.Complete) :
    Made (edits ++ more.map fun line => .append line.encode) ⟨draft.waiting, draft.current ++ more⟩ := by
  induction more generalizing edits draft with
  | nil => simpa using made
  | cons line rest ih =>
      rw [List.forall_mem_cons] at complete
      have first : Takes draft (.append line.encode) ⟨draft.waiting, draft.current ++ [line]⟩ := by
        rw [← Line.encodeAll_singleton]
        exact .append (List.forall_mem_singleton.mpr complete.1)
      have later := ih (made.edit first) complete.2
      simpa [List.append_assoc] using later

/-- A jump that waits has been appended, and since then it has been waiting. -/
theorem waited (made : Made edits draft) {ahead : List Line} {earlier : List (List Line)}
    (waits : ahead :: earlier <:+ draft.waiting) :
    ∃ early late, edits = early ++ .append (Opcode.jump.encode [0]) :: late ∧
      Made early ⟨earlier, ahead⟩ ∧
      ∀ part, part <+: late → ∃ middle,
        Made (early ++ .append (Opcode.jump.encode [0]) :: part) middle ∧
          ahead :: earlier <:+ middle.waiting := by
  induction made with
  | start => exact absurd (List.suffix_nil.mp waits) nofun
  | @edit edits edit draft next made takes ih =>
      obtain still | ⟨rfl, rfl⟩ := takes.waited waits
      · obtain ⟨early, late, rfl, first, since⟩ := ih still
        refine ⟨early, late ++ [edit], by simp, first, fun part begins => ?_⟩
        obtain rfl | begins := List.prefix_concat_iff.mp begins
        · refine ⟨next, ?_, waits⟩
          have whole := made.edit takes
          rwa [List.append_assoc, List.cons_append] at whole
        · exact since part begins
      · refine ⟨edits, [], rfl, made, fun part begins => ?_⟩
        cases List.prefix_nil.mp begins
        exact ⟨next, made.edit takes, waits⟩

end Made

theorem exists_settled {waiting outer : List (List Line)} (waits : outer <:+ waiting) :
    ∃ rest, settled waiting = settled outer ++ rest := by
  obtain ⟨more, rfl⟩ := waits
  induction more with
  | nil => exact ⟨[], (List.append_nil _).symm⟩
  | cons ahead more ih =>
      obtain ⟨rest, same⟩ := ih
      exact ⟨rest ++ (ahead ++ [.plain .jump [0]]), by
        rw [List.cons_append, settled, same, List.append_assoc]⟩

/-- A jump that waits is an instruction of the code. -/
theorem Made.jump_waits (made : Made edits draft) {ahead : List Line} {earlier : List (List Line)}
    (waits : ahead :: earlier <:+ draft.waiting) :
    Line.extent (settled earlier ++ ahead) ∈ (Edit.code edits).addresses ∧
      (Edit.code edits).opcode? (Line.extent (settled earlier ++ ahead)) = some .jump := by
  obtain ⟨rest, same⟩ := exists_settled waits
  have split : draft.lines = (settled earlier ++ ahead) ++ .plain .jump [0] :: (rest ++ draft.current) := by
    rw [lines, same, settled]
    simp only [List.append_assoc, List.cons_append, List.nil_append]
  obtain ⟨met, held⟩ := Code.line_at made.code.1 made.code.2 split rfl
  exact ⟨met, Code.opcode?_of_has held⟩

/-- A script from some edits on. It makes a draft of a certain kind, unless it fails on its way. -/
def Leads (edits : List Edit) (script : Script) (reaches : Draft → Prop) : Prop :=
  ∃ next, Made (edits ++ script.edits) next ∧ (script.failure = none → reaches next)

/-- Sealed lines have been added to what is being worked on. -/
def Grows (draft next : Draft) : Prop :=
  ∃ inner, Line.Sealed inner ∧ next = ⟨draft.waiting, draft.current ++ inner⟩

theorem Grows.sealed (grows : draft.Grows next) (clear : Line.Sealed draft.lines) :
    Line.Sealed next.lines := by
  obtain ⟨inner, within, rfl⟩ := grows
  rw [lines, ← List.append_assoc]
  exact clear.append within

theorem Grows.trans {last : Draft} (first : draft.Grows next) (second : next.Grows last) :
    draft.Grows last := by
  obtain ⟨inner, within, rfl⟩ := first
  obtain ⟨more, further, rfl⟩ := second
  exact ⟨inner ++ more, within.append further, by rw [List.append_assoc]⟩

namespace Leads

variable {first behind : Script} {middle reaches : Draft → Prop}

theorem done (made : Made (edits ++ later) next) (reached : reaches next) :
    Leads edits (.done later) reaches := ⟨next, made, fun _ => reached⟩

theorem refused (made : Made edits draft) (error : CompileError) :
    Leads edits ⟨[], some error⟩ reaches :=
  ⟨draft, by rwa [List.append_nil], fun completed => absurd completed (Option.some_ne_none error)⟩

theorem mono {wider : Draft → Prop} (leads : Leads edits first reaches)
    (widens : ∀ next, reaches next → wider next) : Leads edits first wider := by
  obtain ⟨next, made, reached⟩ := leads
  exact ⟨next, made, fun completed => widens next (reached completed)⟩

theorem follow (leads : Leads edits first middle)
    (further : ∀ next, Made (edits ++ first.edits) next → middle next →
      Leads (edits ++ first.edits) behind reaches) : Leads edits (first.follow behind) reaches := by
  obtain ⟨next, made, reached⟩ := leads
  unfold Script.follow
  split
  · rename_i completed
    obtain ⟨last, made', reached'⟩ := further next made (reached completed)
    exact ⟨last, by rwa [← List.append_assoc], reached'⟩
  · rename_i error failed
    refine ⟨next, made, fun completed => ?_⟩
    rw [failed] at completed
    cases completed

theorem spanning {distance : Except CompileError Int16} {spans : Int16 → List Edit}
    (made : Made edits draft)
    (near : ∀ given, distance = .ok given → Leads edits (.done (spans given)) reaches) :
    Leads edits (.spanning distance spans) reaches := by
  cases distance with
  | error error => exact refused made error
  | ok given => exact near given rfl

/-- Sealed lines that are appended one by one. -/
theorem append (made : Made edits draft) {more : List Line} (fresh : Line.Sealed more) :
    Leads edits (.done (more.map fun line => .append line.encode)) draft.Grows :=
  done (made.append fresh.complete) ⟨more, fresh, rfl⟩

theorem append_plain (made : Made edits draft) {opcode : Opcode} {operands : List Int16}
    (fresh : Line.Sealed [.plain opcode operands]) :
    Leads edits (.done [.append (opcode.encode operands)]) draft.Grows := by
  have leads := append made fresh
  rwa [List.map_singleton, Line.encode, Line.plain, List.append_nil] at leads

/-- The end of a branch that another one follows. -/
theorem endBranch {waiting : List (List Line)} {front inner : List Line}
    (made : Made edits ⟨waiting, front ++ inner⟩) (clear : Line.Sealed (settled waiting ++ front))
    (within : Line.Sealed inner) :
    Leads edits (endBranchScript (Line.extent (settled waiting ++ front)) (Edit.growths edits))
      fun next => ∃ skip : Int16, skip.toInt = Line.extent inner + 3 ∧
        next = ⟨(front ++ .plain .branch [skip] :: inner) :: waiting, []⟩ := by
  refine spanning made fun skip near => ?_
  have branch : (Line.plain .branch [skip]).encode = Opcode.branch.encode [skip] := List.append_nil _
  have across := toInt_of_jumpDistance near
  rw [← made.extent, lines, ← List.append_assoc, Line.extent_append _ inner] at across
  have whole : (Line.plain .branch [skip]).Complete := ⟨rfl, rfl⟩
  have inserted := made.edit (.insert clear within (List.forall_mem_singleton.mpr whole))
  rw [Line.encodeAll_singleton, branch] at inserted
  have closed := inserted.edit .wait
  rw [List.append_assoc] at closed
  refine done closed ⟨skip, ?_, rfl⟩
  have size : Opcode.jump.fixedSize = 3 := rfl
  rw [size] at across
  simp only [Int.ofNat_eq_natCast] at across
  omega

/-- A waiting jump is sent to the end. -/
theorem landJump {waiting : List (List Line)} {ahead current : List Line}
    (made : Made edits ⟨ahead :: waiting, current⟩) :
    Leads edits
      (landJumpScript (Line.extent (settled waiting ++ ahead) + 3) (Edit.growths edits))
      fun next => ∃ leave : Int16, leave.toInt = Line.extent current ∧
        next = ⟨waiting, ahead ++ .plain .jump [leave] :: current⟩ := by
  refine spanning made fun leave near => ?_
  have across := toInt_of_jumpDistance near
  have total : Line.extent (Draft.lines ⟨ahead :: waiting, current⟩) =
      Line.extent (settled waiting ++ ahead) + 3 + Line.extent current := by
    rw [lines, settled, ← List.append_assoc, Line.extent_append, Line.extent_append _ [_]]
    rfl
  rw [← made.extent, total] at across
  have reaches : leave.toInt = Line.extent current := by
    simp only [Int.ofNat_eq_natCast] at across
    omega
  exact done (made.edit (.land reaches)) ⟨leave, reaches, rfl⟩

/-- Steps are laid around the lines at the end. -/
theorem wrap {waiting : List (List Line)} {front inner : List Line} {steps : List Step}
    (made : Made edits ⟨waiting, front ++ inner⟩) (clear : Line.Sealed (settled waiting ++ front))
    (within : Line.Sealed inner)
    (split : ∃ before after, steps = before ++ .body :: after ∧ Step.body ∉ before ∧
      Step.body ∉ after)
    (wholes : ∀ step ∈ steps, step.Whole) (apt : ∀ step ∈ steps, step.Apt) :
    Leads edits (wrapScript (Line.extent (settled waiting ++ front)) steps (Edit.growths edits))
      (Draft.mk waiting front).Grows := by
  obtain ⟨before, after, rfl, ahead, behind⟩ := split
  have bodySize : Edit.growths edits - Line.extent (settled waiting ++ front) = Line.extent inner := by
    rw [← made.extent, lines, ← List.append_assoc, Line.extent_append _ inner,
      Nat.add_sub_cancel_left]
  obtain ⟨starts, rest⟩ := Step.split_at_body ahead after
  simp only [wrapScript, bodySize, starts, rest]
  unfold Script.enclosing
  split
  · rename_i leading trailing first second
    obtain ⟨aheadLines, behindLines, assembled, rfl, rfl⟩ :=
      Step.assembles_around ahead behind first second
    have whole := assembled.sealed wholes apt within
    have fresh := whole.complete
    simp only [List.forall_mem_append] at fresh
    have inserted := made.edit (.insert clear within fresh.1)
    have wrapped := inserted.edit (.append fresh.2.2)
    rw [List.append_assoc] at wrapped
    refine done wrapped ⟨_, whole, ?_⟩
    simp only [List.append_assoc]
  · exact refused made _
  · exact refused made _

end Leads

variable {ahead inner : List Line} {waiting : List (List Line)}

theorem extent_waiting :
    Line.extent (lines ⟨ahead :: waiting, []⟩) = Line.extent (settled waiting ++ ahead) + 3 := by
  rw [lines, settled, List.append_nil, ← List.append_assoc, Line.extent_append]
  rfl

/-- A branch in front of a waiting jump. -/
theorem branch_sealed {skip : Int16} (clear : Line.Sealed draft.lines) (within : Line.Sealed inner)
    (across : skip.toInt = Line.extent inner + 3) :
    Line.Sealed
      (lines ⟨(draft.current ++ .plain .branch [skip] :: inner) :: draft.waiting, []⟩) := by
  have jump : Line.Sealed [.plain .jump [0]] := Line.Sealed.nil.cons_jump rfl rfl (Line.boundary_zero [])
  have branch : Line.Sealed (.plain .branch [skip] :: (inner ++ [.plain .jump [0]])) := by
    refine (within.append jump).cons_jump rfl rfl ?_
    have ends : skip.toInt = Line.extent (inner ++ [.plain .jump [0]]) := by
      rw [across, Line.extent_append]
      rfl
    rw [ends]
    exact Line.boundary_end _
  have whole := clear.append branch
  simpa only [lines, settled, List.append_assoc, List.append_nil, List.cons_append] using whole

end Draft

/-- A literal is appended line by line. -/
theorem literalEdits_eq (caseless : Bool) (bytes : List UInt8) :
    literalEdits caseless bytes =
      (literalLines caseless bytes).map fun line => .append line.encode := by
  fun_induction literalEdits caseless bytes with
  | case1 bytes nothing => rw [literalLines, dif_pos (List.isEmpty_iff.mp nothing), List.map_nil]
  | case2 bytes filled ih =>
      rw [literalLines, dif_neg fun nothing => filled (List.isEmpty_iff.mpr nothing), List.map_cons,
        literalLine_encode, ih]

namespace Expr

open Draft

/-- The code around a body follows the code of the body. -/
theorem leads_wrapped {body : Script} {edits : List Edit} {draft : Draft} {steps : List Step}
    (made : Made edits draft) (clear : Line.Sealed draft.lines)
    (inner : Leads edits body draft.Grows)
    (split : ∃ before after, steps = before ++ .body :: after ∧ Step.body ∉ before ∧
      Step.body ∉ after)
    (wholes : ∀ step ∈ steps, step.Whole) (apt : ∀ step ∈ steps, step.Apt) :
    Leads edits (body.wrapped (Edit.growths edits) steps) draft.Grows := by
  have start : Line.extent (settled draft.waiting ++ draft.current) = Edit.growths edits :=
    made.extent
  refine inner.follow fun next made' => ?_
  rintro ⟨lines, within, rfl⟩
  have wrapped := Leads.wrap made' clear within split wholes apt
  rwa [start, Edit.growths_append] at wrapped

/-- The code of another branch follows that of one, with a jump past it that lands in the end. -/
theorem leads_alternative (first second : Expr) {edits : List Edit} {draft : Draft}
    (made : Made edits draft) (clear : Line.Sealed draft.lines)
    (former : Leads edits (first.script (Edit.growths edits)) draft.Grows)
    (latter : ∀ {edits : List Edit} {draft : Draft}, Made edits draft → Line.Sealed draft.lines →
      Leads edits (second.script (Edit.growths edits)) draft.Grows) :
    Leads edits ((Expr.alternative first second).script (Edit.growths edits)) draft.Grows := by
  have start : Line.extent (settled draft.waiting ++ draft.current) = Edit.growths edits :=
    made.extent
  refine former.follow fun next tried => ?_
  rintro ⟨inner, within, rfl⟩
  have ended := Leads.endBranch tried clear within
  rw [start, Edit.growths_append] at ended
  refine ended.follow fun next waits => ?_
  rintro ⟨skip, across, rfl⟩
  have origin := waits.extent
  have later := latter waits (branch_sealed clear within across)
  rw [Edit.growths_append, Edit.growths_append] at later origin
  refine later.follow fun next other => ?_
  rintro ⟨behind, further, rfl⟩
  have landed := Leads.landJump other
  rw [extent_waiting] at origin
  rw [origin, Edit.growths_append, Edit.growths_append, Edit.growths_append] at landed
  refine landed.mono fun next => ?_
  rintro ⟨leave, beyond, rfl⟩
  exact ⟨_, .alternative within further across beyond, by simp⟩

/-- The code of a group is marked at both ends. -/
theorem leads_capture (group : Nat) (body : Expr) {edits : List Edit} {draft : Draft}
    (made : Made edits draft) (clear : Line.Sealed draft.lines)
    (within : ∀ {edits : List Edit} {draft : Draft}, Made edits draft → Line.Sealed draft.lines →
      Leads edits (body.script (Edit.growths edits)) draft.Grows) :
    Leads edits ((Expr.capture group body).script (Edit.growths edits)) draft.Grows := by
  have number (opcode : Opcode) (single : opcode.operandCount = 1)
      (straight : opcode.hasTarget = false) (bare : ∀ operands, opcode.payloadSize operands = 0)
      {edits : List Edit} {draft : Draft} (made : Made edits draft) :=
    Leads.append_plain made (sealed_of_number single straight bare (Int16.ofNat group))
  refine (number .openGroup rfl rfl (fun _ => rfl) made).follow fun next made' opened => ?_
  have inside := within made' (opened.sealed clear)
  rw [Edit.growths_append] at inside
  refine inside.follow fun next' made'' grows => ?_
  refine (number .closeGroup rfl rfl (fun _ => rfl) made'').mono fun last closed => ?_
  exact (opened.trans grows).trans closed

/-- What is done for an expression is done to drafts. In the end the expression has sealed lines at
the end of what there was before. -/
theorem leads (expr : Expr) {edits : List Edit} {draft : Draft} (made : Made edits draft)
    (clear : Line.Sealed draft.lines) :
    Leads edits (expr.script (Edit.growths edits)) draft.Grows := by
  induction expr generalizing edits draft with
  | empty => exact .append made .nil
  | test single =>
      rw [script, ← single.encode_line]
      exact .append made single.sealed
  | literal caseless bytes =>
      rw [script, literalEdits_eq]
      exact .append made (literalLines_sealed caseless bytes)
  | assertion condition => exact .append_plain made condition.sealed
  | backReference caseless group =>
      refine .append_plain made ?_
      cases caseless <;> exact sealed_of_number rfl rfl (fun _ => rfl) _
  | sequence first second former latter =>
      refine (former made clear).follow fun next made' grows => ?_
      have later := latter made' (grows.sealed clear)
      rw [Edit.growths_append] at later
      exact later.mono fun last grows' => grows.trans grows'
  | alternative first second former latter =>
      exact leads_alternative first second made clear (former made clear) latter
  | capture group body ih =>
      exact leads_capture group body made clear ih
  | repetition quantifier single =>
      have fresh := repetition_sealed quantifier single
      obtain ⟨repeats, _⟩ := List.forall_mem_cons.mp fresh.complete
      have inserted := (made.append single.sealed.complete).edit
        (.insert clear single.sealed (List.forall_mem_singleton.mpr repeats))
      have start : Line.extent (settled draft.waiting ++ draft.current) = Edit.growths edits :=
        made.extent
      have bytes : Line.encodeAll [repetitionLine quantifier] = repetitionCode quantifier :=
        (Line.encodeAll_singleton _).trans (List.append_nil _)
      rw [start, bytes, List.append_assoc, List.map_singleton, single.encode_line] at inserted
      exact .done inserted ⟨_, fresh, rfl⟩
  | loop quantifier nullable counter body ih =>
      exact leads_wrapped made clear (ih made clear) (quantifier.loopSteps_split nullable counter)
        (quantifier.loopSteps_whole nullable counter) (quantifier.loopSteps_apt nullable counter)
  | atomic body ih =>
      exact leads_wrapped made clear (ih made clear) ⟨[_], [_], rfl, by simp, by simp⟩
        atomicSteps_whole atomicSteps_apt
  | look direction width body ih =>
      exact leads_wrapped made clear (ih made clear) ⟨[_], [_], rfl, by simp, by simp⟩
        (direction.steps_whole width) (direction.steps_apt width)

end Expr

/-- What is done for a pattern is done to drafts, also if it is refused in the end. -/
theorem Program.exists_made (pattern : List UInt8) (flags : Flags) :
    ∃ draft, Draft.Made (script pattern flags 0).edits draft := by
  unfold script
  split
  · exact ⟨_, .start⟩
  · rename_i expr groups parsed
    have whole : Draft.Leads [] ((expr.script 0).follow (.done [.append (Opcode.succeed.encode [])]))
        fun _ => True := by
      refine (expr.leads .start .nil).follow fun next made grows => ?_
      exact (Draft.Leads.append_plain made (.singleton ⟨rfl, rfl⟩ rfl)).mono fun _ _ => trivial
    obtain ⟨last, made, _⟩ := whole
    exact ⟨last, made⟩

/-- Edits that keep every jump. What is inserted stands between instructions at a place that no jump
crosses. A jump that is sent to the end of the code has been appended without a distance, and it has
been at the same place since then. -/
structure Edit.KeepJumps (edits : List Edit) : Prop where
  insertions : ∀ front start bytes back, edits = front ++ .insert start bytes :: back →
    Code.Insertion (code front) (code (front ++ [.insert start bytes])) start bytes.length
  landings : ∀ front position leave back, edits = front ++ .patch position leave :: back →
    ∃ early late, front = early ++ .append (Opcode.jump.encode [0]) :: late ∧
      position = (code early).size + 1 ∧
      (∀ part, part <+: late →
        let meanwhile := code (early ++ .append (Opcode.jump.encode [0]) :: part)
        (code early).size ∈ meanwhile.addresses ∧
          meanwhile.opcode? (code early).size = some .jump) ∧
      (code (front ++ [.patch position leave])).target? (code early).size .jump =
        some (code front).size

namespace Draft

/-- A jump that has been sent to the end goes there. -/
theorem Made.target?_of_landed {edits : List Edit} {waiting : List (List Line)}
    {ahead current : List Line} {leave : Int16}
    (made : Made edits ⟨waiting, ahead ++ .plain .jump [leave] :: current⟩)
    (across : leave.toInt = Line.extent current) :
    (Edit.code edits).target? (Line.extent (settled waiting ++ ahead)) .jump =
      some (Edit.code edits).size := by
  have split : lines ⟨waiting, ahead ++ .plain .jump [leave] :: current⟩ =
      (settled waiting ++ ahead) ++ .plain .jump [leave] :: current := (List.append_assoc ..).symm
  have held := (Code.line_at made.code.1 made.code.2 split rfl).2
  refine Code.target?_of_jump held ⟨rfl, rfl⟩ (Line.distance?_plain rfl [] leave) ?_
  rw [across, Edit.size_code, ← made.extent, split, Line.extent_append _ (_ :: current), Line.extent_cons]
  omega

/-- Whatever is done to drafts keeps the jumps. -/
theorem Made.keepJumps {edits : List Edit} {draft : Draft} (made : Made edits draft) :
    Edit.KeepJumps edits where
  insertions front start bytes back parts := by
    obtain ⟨before, after, first, takes⟩ := made.split parts
    have held := first.code.1
    have held' := (first.edit takes).code.1
    cases takes with
    | insert ahead behind fresh =>
        simp only [lines, ← List.append_assoc] at held held'
        rw [List.append_assoc _ _ (_ : List Line)] at held'
        exact Code.Spliced.insertion ⟨held, held', ahead, behind, fresh⟩
  landings front position leave back parts := by
    obtain ⟨before, after, first, takes⟩ := made.split parts
    have whole := (first.edit takes).code
    cases takes with
    | @land waiting ahead current leave across =>
        obtain ⟨early, late, same, begun, since⟩ := first.waited (List.suffix_refl _)
        have place : (Edit.code early).size = Line.extent (settled waiting ++ ahead) := by
          rw [← Array.length_toList, begun.code.1]
          rfl
        refine ⟨early, late, same, ?_⟩
        rw [place]
        refine ⟨rfl, fun part begins => ?_, ?_⟩
        · obtain ⟨middle, made, waits⟩ := since part begins
          exact made.jump_waits waits
        · have level : (Edit.code front).size = (Edit.code (front ++
              [.patch (Line.extent (settled waiting ++ ahead) + 1) leave])).size := by
            rw [Edit.size_code, Edit.size_code, Edit.growths_append]
            rfl
          rw [level]
          exact (first.edit (.land across)).target?_of_landed across

end Draft

/-- A journal has noted the edits that have been made. -/
theorem Journal.applyAll_empty (edits : List Edit) :
    Edit.applyAll Journal.empty edits = ⟨Edit.growths edits, edits⟩ := by
  have size : (Edit.applyAll Journal.empty edits).size = 0 + Edit.growths edits :=
    Edit.size_applyAll Journal.empty edits
  have noted := Journal.edits_applyAll .empty edits
  rw [Nat.zero_add] at size
  generalize Edit.applyAll Journal.empty edits = journal at size noted ⊢
  cases journal
  cases size
  cases noted
  rfl

/-- Assembling a pattern keeps every jump at each of the edits that it makes, which a journal notes
and a buffer takes. So does emitting any expression, as far as it goes without a jump that is too
long. -/
theorem Program.assembly_keeps_jumps (pattern : List UInt8) (flags : Flags) :
    let edits := (script pattern flags 0).edits
    Edit.KeepJumps edits ∧
      assemble pattern flags Journal.empty =
        (parse pattern flags).map (fun (_, groups) => (⟨Edit.growths edits, edits⟩, groups)) ∧
      assemble pattern flags CodeBuffer.empty =
        (parse pattern flags).map (fun (_, groups) => (⟨Edit.code edits⟩, groups)) ∧
      ∀ expr : Expr, Edit.KeepJumps (expr.script 0).edits ∧
        (expr.emit Journal.empty).map Journal.edits =
          (expr.emit CodeBuffer.empty).map fun _ => (expr.script 0).edits := by
  refine ⟨?_, ?_, ?_, fun expr => ⟨?_, ?_⟩⟩
  · obtain ⟨draft, made⟩ := exists_made pattern flags
    exact made.keepJumps
  · cases parsed : parse pattern flags with
    | error error => exact assemble_of_refused parsed Journal.empty
    | ok result =>
        rw [assemble_of_parse parsed]
        exact congrArg (fun journal => Except.ok (journal, _)) (Journal.applyAll_empty _)
  · cases parsed : parse pattern flags with
    | error error => exact assemble_of_refused parsed CodeBuffer.empty
    | ok result => exact assemble_of_parse parsed CodeBuffer.empty
  · obtain ⟨draft, made, _⟩ := expr.leads .start .nil
    exact made.keepJumps
  · rw [expr.emit_eq_run Journal.empty, expr.emit_eq_run CodeBuffer.empty]
    show ((expr.script 0).run Journal.empty).map Journal.edits =
      ((expr.script 0).run CodeBuffer.empty).map _
    unfold Script.run
    split
    · rw [Journal.applyAll_empty]
      rfl
    · rfl

end ByteRegex
