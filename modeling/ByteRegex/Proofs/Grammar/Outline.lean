import ByteRegex.Pattern.Frame
import ByteRegex.Proofs.Grammar.Phrase
import ByteRegex.Proofs.Syntax.Widths

/-!
# Outlines

The parser with widths in place of expressions: an automaton with a stack, which knows no limits and
makes no code. It accepts exactly the expressions of the grammar.
-/

namespace ByteRegex.Grammar

/-- A frame of the parser in outline. -/
@[ext]
structure Layer where
  capturing : Bool
  enclosure : Enclosure
  /-- The width of the finished branches, if there are any. -/
  earlier : Option Width
  /-- The width of the current branch without its last piece. -/
  base : Width
  /-- The width of the last piece, and whether a quantifier can follow it. -/
  last : Option (Width × Bool)
  /-- Whether the current branch has a piece. -/
  filled : Bool

namespace Layer

def start (capturing : Bool) (enclosure : Enclosure) (earlier : Option Width) : Layer :=
  ⟨capturing, enclosure, earlier, .exactly 0, none, false⟩

/-- The width of the current branch. -/
def width (layer : Layer) : Width :=
  match layer.last with
  | none => layer.base
  | some (width, _) => layer.base.followedBy width

def settle (layer : Layer) : Layer := { layer with base := layer.width, last := none }

def add (layer : Layer) (width : Width) (repeatable : Bool) : Layer :=
  { layer with base := layer.width, last := some (width, repeatable), filled := true }

def repeatLast (layer : Layer) (quantifier : Quantifier) : Option Layer :=
  match layer.last with
  | some (width, true) =>
      some { layer with last := some (width.repeated quantifier.least quantifier.most, false) }
  | _ => none

def bar (layer : Layer) : Option Layer :=
  if layer.filled then
    some (start layer.capturing layer.enclosure (some (Width.joined layer.earlier layer.width)))
  else none

/-- The width of the whole expression. -/
def whole (layer : Layer) : Option Width :=
  if layer.earlier.isSome && !layer.filled then none
  else some (Width.joined layer.earlier layer.width)

end Layer

theorem Layer.enclosure_of_repeatLast {layer next : Layer} {quantifier : Quantifier}
    (repeated : layer.repeatLast quantifier = some next) : next.enclosure = layer.enclosure := by
  unfold Layer.repeatLast at repeated
  split at repeated <;> cases repeated
  rfl

theorem Layer.enclosure_of_bar {layer next : Layer} (barred : layer.bar = some next) :
    next.enclosure = layer.enclosure := by
  unfold Layer.bar at barred
  split at barred <;> cases barred
  rfl

/-- How an opening encloses what follows it. -/
def enclosureOf (capturing : Bool) (scope : Scope) : Opening → Enclosure
  | .plain => if capturing then .capture (scope.groups + 1) else .bare
  | .enclosing | .inline _ _ => .bare
  | .atomic => .atomic
  | .look direction => .look direction

def Scope.enter (scope : Scope) : Enclosure → Scope
  | .capture group => ⟨group, scope.closed⟩
  | .bare | .atomic | .look _ => scope

def Scope.leave (scope : Scope) : Enclosure → Scope
  | .capture group => ⟨scope.groups, group :: scope.closed⟩
  | .bare | .atomic | .look _ => scope

/-- A finished group as its surroundings see it, from the width of its expression. -/
def groupAtom? (width : Width) : Enclosure → Option (Width × Bool)
  | .look direction =>
      if direction.isBehind && width.fixed?.isNone then none else some (.exactly 0, false)
  | .bare | .capture _ | .atomic => some (width, true)

structure Outline where
  layer : Layer
  outer : List Layer
  scope : Scope

namespace Outline

def initial (capturing : Bool) : Outline := ⟨.start capturing .bare none, [], .outermost⟩

def add (outline : Outline) (width : Width) (repeatable : Bool) : Outline :=
  { outline with layer := outline.layer.add width repeatable }

def enter (outline : Outline) (opening : Opening) : Outline :=
  let enclosure := enclosureOf outline.layer.capturing outline.scope opening
  ⟨.start outline.layer.capturing enclosure none, outline.layer.settle :: outline.outer,
    outline.scope.enter enclosure⟩

def leave (outline : Outline) : Option Outline :=
  match outline.outer with
  | [] => none
  | parent :: outer =>
      outline.layer.whole.bind fun width =>
        (groupAtom? width outline.layer.enclosure).map fun (width, repeatable) =>
          ⟨parent.add width repeatable, outer, outline.scope.leave outline.layer.enclosure⟩

def step (outline : Outline) : Token → Option Outline
  | .literal _ | .dot | .bracket _ | .inClass _ | .notInClass _ =>
      some (outline.add (.exactly 1) true)
  | .caret | .dollar | .assertion _ => some (outline.add (.exactly 0) false)
  | .backReference group =>
      if outline.layer.capturing && outline.scope.closed.contains group then
        some (outline.add .unknown true)
      else none
  | .opening (.ok opening) => some (outline.enter opening)
  | .closing => outline.leave
  | .bar => outline.layer.bar.map fun layer => { outline with layer }
  | .quantifier (.ok quantifier) =>
      (outline.layer.repeatLast quantifier).map fun layer => { outline with layer }
  | .opening (.error _) | .quantifier (.error _) | .malformed _ => none

def run (outline : Outline) (tokens : List Token) : Option Outline := tokens.foldlM step outline

/-- The number of groups of a pattern that ends here. -/
def finish (outline : Outline) : Option Nat :=
  if outline.outer.isEmpty && outline.layer.whole.isSome then some outline.scope.groups else none

theorem run_append (outline : Outline) (front back : List Token) :
    outline.run (front ++ back) = (outline.run front).bind (run · back) :=
  List.foldlM_append

theorem run_cons (outline : Outline) (token : Token) (rest : List Token) :
    outline.run (token :: rest) = (outline.step token).bind (run · rest) :=
  List.foldlM_cons

end Outline

/-! ## The automaton accepts the grammar -/

section Completeness

/-- What the automaton does with the tokens of a phrase. -/
def Runs (capturing : Bool) :
    Nonterminal → Scope → List Token → Scope → Width → Prop
  | .expression, start, tokens, stop, width => ∀ enclosure outer, ∃ layer : Layer,
      layer.enclosure = enclosure ∧ layer.whole = some width ∧
      Outline.run ⟨.start capturing enclosure none, outer, start⟩ tokens =
        some ⟨layer, outer, stop⟩
  | .alternatives, start, tokens, stop, width => ∀ enclosure outer,
      Outline.run ⟨.start capturing enclosure none, outer, start⟩ tokens =
        some ⟨.start capturing enclosure (some width), outer, stop⟩
  | .branch, start, tokens, stop, width => ∀ enclosure earlier outer, ∃ layer : Layer,
      (layer.capturing = capturing ∧ layer.enclosure = enclosure ∧ layer.earlier = earlier) ∧
      layer.width = width ∧ layer.filled = !tokens.isEmpty ∧
      Outline.run ⟨.start capturing enclosure earlier, outer, start⟩ tokens =
        some ⟨layer, outer, stop⟩
  | .piece, start, tokens, stop, width => ∃ repeatable, ∀ (layer : Layer) (outer : List Layer),
      layer.capturing = capturing →
      Outline.run ⟨layer, outer, start⟩ tokens = some ⟨layer.add width repeatable, outer, stop⟩
  | .atom repeatable, start, tokens, stop, width => ∀ (layer : Layer) (outer : List Layer),
      layer.capturing = capturing →
      Outline.run ⟨layer, outer, start⟩ tokens = some ⟨layer.add width repeatable, outer, stop⟩

theorem enclosureOf_of_encloses {capturing : Bool} {opening : Opening}
    (plain : encloses capturing opening = true) (scope : Scope) :
    enclosureOf capturing scope opening = .bare ∨
      enclosureOf capturing scope opening = .atomic := by
  cases opening with
  | plain =>
      simp only [encloses, Bool.not_eq_true'] at plain
      exact .inl (by rw [plain]; rfl)
  | enclosing | inline => exact .inl rfl
  | atomic => exact .inr rfl
  | look => cases plain

theorem bar_of_branch {capturing : Bool} {start stop : Scope} {tokens : List Token} {width : Width}
    (branch : Runs capturing .branch start tokens stop width) (filled : tokens ≠ [])
    (enclosure : Enclosure) (earlier : Option Width) (outer : List Layer) :
    Outline.run ⟨.start capturing enclosure earlier, outer, start⟩ (tokens ++ [.bar]) =
      some ⟨.start capturing enclosure (some (Width.joined earlier width)), outer, stop⟩ := by
  obtain ⟨layer, ⟨rfl, rfl, rfl⟩, rfl, full, ran⟩ := branch enclosure earlier outer
  have some : layer.filled = true := by simpa [full] using filled
  rw [Outline.run_append, ran, Option.bind_some, Outline.run_cons, Outline.step, Layer.bar,
    if_pos some]
  rfl

/-- A group is run inside a layer of its own. -/
theorem group_of_expression {capturing : Bool} {start stop : Scope} {tokens : List Token}
    {width : Width} {opening : Opening} {enclosure : Enclosure} {result : Width × Bool}
    (opens : enclosureOf capturing start opening = enclosure)
    (body : Runs capturing .expression (start.enter enclosure) tokens stop width)
    (made : groupAtom? width enclosure = some result) (layer : Layer) (outer : List Layer)
    (same : layer.capturing = capturing) :
    Outline.run ⟨layer, outer, start⟩ (.opening (.ok opening) :: (tokens ++ [.closing])) =
      some ⟨layer.add result.1 result.2, outer, stop.leave enclosure⟩ := by
  subst same
  obtain ⟨inner, around, whole, ran⟩ := body enclosure (layer.settle :: outer)
  rw [Outline.run_cons, Outline.step, Option.bind_some, Outline.enter, opens, Outline.run_append,
    ran, Option.bind_some, Outline.run_cons, Outline.step, Outline.leave]
  simp only [whole, around, made, Option.bind_some, Option.map_some]
  rfl

theorem Phrase.runs {capturing : Bool} {nonterminal : Nonterminal} {start stop : Scope}
    {tokens : List Token} {width : Width}
    (phrase : Phrase capturing nonterminal start tokens stop width) :
    Runs capturing nonterminal start tokens stop width := by
  induction phrase with
  | single _ branch =>
      intro enclosure outer
      obtain ⟨layer, ⟨_, around, none⟩, wide, _, ran⟩ := branch enclosure none outer
      refine ⟨layer, around, ?_, ran⟩
      rw [Layer.whole, none, wide]
      rfl
  | @several _ _ _ _ _ former _ _ _ filled alternatives branch =>
      intro enclosure outer
      obtain ⟨layer, ⟨_, around, some⟩, wide, full, ran⟩ := branch enclosure (.some former) outer
      refine ⟨layer, around, ?_, ?_⟩
      · rw [Layer.whole, some, wide, full]
        simp [filled, Width.joined]
      · rw [Outline.run_append, alternatives enclosure outer, Option.bind_some, ran]
  | first _ filled branch =>
      intro enclosure outer
      exact bar_of_branch branch filled enclosure none outer
  | next _ _ filled alternatives branch =>
      intro enclosure outer
      rw [Outline.run_append, alternatives enclosure outer, Option.bind_some]
      exact bar_of_branch branch filled enclosure (some _) outer
  | empty scope =>
      intro enclosure earlier outer
      exact ⟨_, ⟨rfl, rfl, rfl⟩, rfl, rfl, rfl⟩
  | @more _ _ _ _ _ _ width _ last branch piece =>
      intro enclosure earlier outer
      obtain ⟨layer, ⟨captures, around, former⟩, wide, _, ran⟩ := branch enclosure earlier outer
      obtain ⟨repeatable, added⟩ := piece
      refine ⟨layer.add width repeatable, ⟨captures, around, former⟩, ?_, ?_, ?_⟩
      · rw [← wide]
        rfl
      · simp [Layer.add, last.piece_filled]
      · rw [Outline.run_append, ran, Option.bind_some, added layer outer captures]
  | once _ atom => exact ⟨_, atom⟩
  | repeated _ quantifier atom =>
      refine ⟨false, fun layer outer captures => ?_⟩
      rw [Outline.run_append, atom layer outer captures]
      rfl
  | @byte token one scope =>
      intro layer outer _
      cases token <;> first | rfl | cases one
  | @anchor token condition scope =>
      intro layer outer _
      cases token <;> first | rfl | cases condition
  | backReference captures closed =>
      intro layer outer same
      rw [Outline.run_cons, Outline.step, same, captures, if_pos (by simpa using closed)]
      rfl
  | @capture start _ _ _ captures _ body =>
      subst captures
      have opens : enclosureOf true start .plain = .capture (start.groups + 1) := rfl
      exact group_of_expression opens body rfl
  | @group start _ _ _ opening plain _ body =>
      rcases enclosureOf_of_encloses plain start with bare | atomic
      · exact group_of_expression bare body rfl
      · exact group_of_expression atomic body rfl
  | @look start _ _ width direction _ fixed body =>
      have opens : enclosureOf capturing start (.look direction) = .look direction := rfl
      refine group_of_expression opens body (if_neg fun unfixed => ?_)
      simp only [Bool.and_eq_true, Option.isNone_iff_eq_none] at unfixed
      have known := fixed unfixed.1
      rw [unfixed.2] at known
      cases known

end Completeness

/-! ## The grammar derives what the automaton accepts -/

section Soundness

variable {capturing : Bool} {start middle stop : Scope} {tokens : List Token}

/-- The branches of a layer that are finished. -/
inductive Finished (capturing : Bool) :
    Scope → List Token → Scope → Option Width → Prop where
  | none (scope : Scope) : Finished capturing scope [] scope none
  | some {start stop : Scope} {tokens : List Token} {width : Width}
      (alternatives : Phrase capturing .alternatives start tokens stop width) :
      Finished capturing start tokens stop (some width)

/-- The pieces of a branch. The last one is an atom as long as a quantifier can follow it. -/
inductive Unfinished (capturing : Bool) :
    Scope → List Token → Scope → Width → Option (Width × Bool) → Prop where
  | none {start stop : Scope} {tokens : List Token} {width : Width}
      (branch : Phrase capturing .branch start tokens stop width) :
      Unfinished capturing start tokens stop width none
  | some {start middle stop : Scope} {before tokens : List Token} {base width : Width}
      {repeatable : Bool} (branch : Phrase capturing .branch start before middle base)
      (last : Phrase capturing (if repeatable then .atom true else .piece) middle tokens stop
        width) :
      Unfinished capturing start (before ++ tokens) stop base (some (width, repeatable))

/-- The tokens since a layer was started. -/
structure Layer.Reads (capturing : Bool) (layer : Layer) (start : Scope)
    (before tokens : List Token) (middle stop : Scope) : Prop where
  captures : layer.capturing = capturing
  finished : Finished capturing start before middle layer.earlier
  unfinished : Unfinished capturing middle tokens stop layer.base layer.last
  filled : layer.filled = true ↔ tokens ≠ []

theorem piece_of_last {repeatable : Bool} {width : Width}
    (last : Phrase capturing (if repeatable then .atom true else .piece) start tokens stop width) :
    Phrase capturing .piece start tokens stop width := by
  cases repeatable with
  | false => exact last
  | true => exact .once last

namespace Layer.Reads

variable {layer : Layer} {before : List Token}

theorem branch (reads : layer.Reads capturing start before tokens middle stop) :
    Phrase capturing .branch middle tokens stop layer.width := by
  have unfinished := reads.unfinished
  unfold Layer.width
  cases last : layer.last with
  | none =>
      rw [last] at unfinished
      cases unfinished with
      | none branch => exact branch
  | some found =>
      rw [last] at unfinished
      cases unfinished with
      | some branch final => exact .more branch (piece_of_last final)

theorem fresh (capturing : Bool) (enclosure : Enclosure) (scope : Scope) :
    (Layer.start capturing enclosure none).Reads capturing scope [] [] scope scope :=
  ⟨rfl, .none scope, .none (.empty scope), by simp [Layer.start]⟩

theorem settle (reads : layer.Reads capturing start before tokens middle stop) :
    layer.settle.Reads capturing start before tokens middle stop :=
  ⟨reads.captures, reads.finished, .none reads.branch, reads.filled⟩

theorem add (reads : layer.Reads capturing start before tokens middle stop) {repeatable : Bool}
    {later : List Token} {width : Width} {after : Scope}
    (last : Phrase capturing (if repeatable then .atom true else .piece) stop later after width) :
    (layer.add width repeatable).Reads capturing start before (tokens ++ later) middle after := by
  refine ⟨reads.captures, reads.finished, .some reads.branch last, ?_⟩
  have filled := (piece_of_last last).piece_filled
  simp [Layer.add, filled]

theorem repeatLast (reads : layer.Reads capturing start before tokens middle stop)
    {quantifier : Quantifier} {next : Layer} (repeated : layer.repeatLast quantifier = some next) :
    next.Reads capturing start before (tokens ++ [.quantifier (.ok quantifier)]) middle stop := by
  obtain ⟨captures, finished, unfinished, filled⟩ := reads
  unfold Layer.repeatLast at repeated
  split at repeated
  · rename_i width last
    cases repeated
    rw [last] at unfinished
    cases unfinished with
    | some branch atom =>
        have some := Phrase.atom_filled atom
        refine ⟨captures, finished, ?_, ?_⟩
        · rw [List.append_assoc]
          exact .some branch (Phrase.repeated atom quantifier)
        · exact filled.trans (by simp [some])
  · cases repeated

theorem bar (reads : layer.Reads capturing start before tokens middle stop) {next : Layer}
    (barred : layer.bar = some next) :
    next.Reads capturing start (before ++ (tokens ++ [.bar])) [] stop stop := by
  unfold Layer.bar at barred
  split at barred
  · rename_i filled
    cases barred
    have some : tokens ≠ [] := reads.filled.mp filled
    refine ⟨reads.captures, ?_, .none (.empty stop), by simp [Layer.start]⟩
    have finished := reads.finished
    have branch := reads.branch
    unfold Layer.start Width.joined
    cases earlier : layer.earlier with
    | none =>
        rw [earlier] at finished
        cases finished
        exact .some (.first branch some)
    | some width =>
        rw [earlier] at finished
        cases finished with
        | some alternatives => exact .some (.next alternatives branch some)
  · cases barred

theorem expression (reads : layer.Reads capturing start before tokens middle stop) {width : Width}
    (whole : layer.whole = some width) :
    Phrase capturing .expression start (before ++ tokens) stop width := by
  have finished := reads.finished
  have branch := reads.branch
  unfold Layer.whole Width.joined at whole
  cases earlier : layer.earlier with
  | none =>
      rw [earlier] at finished whole
      cases finished
      cases whole
      exact .single branch
  | some former =>
      rw [earlier] at finished whole
      split at whole
      · cases whole
      · rename_i full
        cases whole
        have some : tokens ≠ [] := reads.filled.mp (by simpa using full)
        cases finished with
        | some alternatives => exact .several alternatives branch some

end Layer.Reads

/-- The groups that are open around a layer, with all the tokens up to where it was started. -/
inductive Around (capturing : Bool) : List Layer → List Token → Scope → Enclosure → Prop where
  | outermost : Around capturing [] [] .outermost .bare
  | inside {parent : Layer} {outer : List Layer} {outside before tokens : List Token}
      {start middle stop : Scope} (around : Around capturing outer outside start parent.enclosure)
      (reads : parent.Reads capturing start before tokens middle stop) (opening : Opening) :
      Around capturing (parent :: outer)
        (outside ++ (before ++ tokens) ++ [.opening (.ok opening)])
        (stop.enter (enclosureOf capturing stop opening)) (enclosureOf capturing stop opening)

theorem Around.exists_parent {parent : Layer} {outer : List Layer} {outside : List Token}
    {enclosure : Enclosure} (around : Around capturing (parent :: outer) outside start enclosure) :
    ∃ (opening : Opening) (around before tokens : List Token) (begin middle stop : Scope),
      outside = around ++ (before ++ tokens) ++ [.opening (.ok opening)] ∧
      start = stop.enter enclosure ∧ enclosure = enclosureOf capturing stop opening ∧
      Around capturing outer around begin parent.enclosure ∧
      parent.Reads capturing begin before tokens middle stop := by
  cases around with
  | inside around reads opening => exact ⟨opening, _, _, _, _, _, _, rfl, rfl, rfl, around, reads⟩

theorem Around.eq_outermost {outside : List Token} {enclosure : Enclosure}
    (around : Around capturing [] outside start enclosure) : outside = [] ∧ start = .outermost := by
  cases around
  exact ⟨rfl, rfl⟩

theorem piece_of_group {opening : Opening} {width : Width} {result : Width × Bool}
    (body : Phrase capturing .expression (start.enter (enclosureOf capturing start opening)) tokens
      stop width)
    (made : groupAtom? width (enclosureOf capturing start opening) = some result) :
    Phrase capturing (if result.2 then .atom true else .piece) start
      (.opening (.ok opening) :: (tokens ++ [.closing]))
      (stop.leave (enclosureOf capturing start opening)) result.1 := by
  cases opening with
  | plain =>
      cases capturing with
      | true =>
          cases made
          exact .capture rfl body
      | false =>
          cases made
          exact .group rfl body
  | enclosing | atomic | inline =>
      cases made
      exact .group rfl body
  | look direction =>
      simp only [enclosureOf, groupAtom?] at made
      split at made
      · cases made
      · rename_i fixed
        cases made
        refine .once (.look body fun behind => ?_)
        simpa [behind, Option.isSome_iff_ne_none] using fixed

/-- The tokens an outline has been reached by. -/
def Outline.Reads (capturing : Bool) (outline : Outline) (read : List Token) : Prop :=
  ∃ outside start before tokens middle,
    read = outside ++ (before ++ tokens) ∧
    Around capturing outline.outer outside start outline.layer.enclosure ∧
    outline.layer.Reads capturing start before tokens middle outline.scope

theorem Outline.Reads.captures {outline : Outline} {read : List Token}
    (reads : outline.Reads capturing read) : outline.layer.capturing = capturing := by
  obtain ⟨_, _, _, _, _, _, _, inside⟩ := reads
  exact inside.captures

namespace Outline.Reads

variable {outline next : Outline} {read : List Token}

theorem initial (capturing : Bool) : (Outline.initial capturing).Reads capturing [] :=
  ⟨[], .outermost, [], [], .outermost, rfl, .outermost, .fresh capturing .bare .outermost⟩

theorem add (reads : outline.Reads capturing read) {width : Width} (repeatable : Bool)
    {later : List Token}
    (last : Phrase capturing (if repeatable then .atom true else .piece) outline.scope later
      outline.scope width) :
    (outline.add width repeatable).Reads capturing (read ++ later) := by
  obtain ⟨outside, start, before, tokens, middle, rfl, around, inside⟩ := reads
  refine ⟨outside, start, before, tokens ++ later, middle, ?_, around, inside.add last⟩
  simp only [List.append_assoc]

theorem enter (reads : outline.Reads capturing read) (opening : Opening) :
    (outline.enter opening).Reads capturing (read ++ [.opening (.ok opening)]) := by
  obtain ⟨outside, start, before, tokens, middle, rfl, around, inside⟩ := reads
  have captures := inside.captures
  subst captures
  have around : Around outline.layer.capturing outline.outer outside start
      outline.layer.settle.enclosure := around
  exact ⟨_, _, [], [], _, (List.append_nil _).symm, .inside around inside.settle opening,
    .fresh _ _ _⟩

theorem leave (reads : outline.Reads capturing read) (left : outline.leave = some next) :
    next.Reads capturing (read ++ [.closing]) := by
  obtain ⟨layer, outer, scope⟩ := outline
  obtain ⟨outside, start, before, tokens, middle, rfl, around, inside⟩ := reads
  cases outer with
  | nil => cases left
  | cons parent outer =>
      obtain ⟨width, whole, joined⟩ := Option.bind_eq_some_iff.mp left
      obtain ⟨⟨width, repeatable⟩, made, rfl⟩ := Option.map_eq_some_iff.mp joined
      obtain ⟨opening, outside, former, present, begin, between, stop, rfl, rfl, enclosed, around,
        reads⟩ := around.exists_parent
      have body := inside.expression whole
      dsimp only at body made ⊢
      rw [enclosed] at body made ⊢
      have last := piece_of_group body made
      refine ⟨outside, begin, former, _, between, ?_, around, reads.add last⟩
      simp only [List.append_assoc, List.cons_append, List.nil_append]

theorem repeatLast (reads : outline.Reads capturing read) {quantifier : Quantifier} {layer : Layer}
    (repeated : outline.layer.repeatLast quantifier = some layer) :
    Outline.Reads capturing { outline with layer } (read ++ [.quantifier (.ok quantifier)]) := by
  obtain ⟨outside, start, before, tokens, middle, rfl, around, inside⟩ := reads
  rw [← Layer.enclosure_of_repeatLast repeated] at around
  refine ⟨outside, start, before, tokens ++ [.quantifier (.ok quantifier)], middle, ?_, around,
    inside.repeatLast repeated⟩
  simp only [List.append_assoc]

theorem bar (reads : outline.Reads capturing read) {layer : Layer}
    (barred : outline.layer.bar = some layer) :
    Outline.Reads capturing { outline with layer } (read ++ [.bar]) := by
  obtain ⟨outside, start, before, tokens, middle, rfl, around, inside⟩ := reads
  rw [← Layer.enclosure_of_bar barred] at around
  refine ⟨outside, start, before ++ (tokens ++ [.bar]), [], outline.scope, ?_, around,
    inside.bar barred⟩
  simp only [List.append_assoc, List.append_nil]

theorem step (reads : outline.Reads capturing read) {token : Token}
    (stepped : outline.step token = some next) : next.Reads capturing (read ++ [token]) := by
  cases token with
  | literal | dot | bracket | inClass | notInClass =>
      cases stepped
      exact reads.add true (.byte rfl _)
  | caret | dollar | assertion =>
      cases stepped
      exact reads.add false (.once (.anchor rfl _))
  | backReference group =>
      simp only [Outline.step] at stepped
      split at stepped
      · rename_i known
        cases stepped
        simp only [Bool.and_eq_true, List.contains_iff_mem, reads.captures] at known
        exact reads.add true (.backReference known.1 known.2)
      · cases stepped
  | opening opening =>
      cases opening with
      | error error => cases stepped
      | ok opening =>
          cases stepped
          exact reads.enter opening
  | closing => exact reads.leave stepped
  | bar =>
      obtain ⟨layer, barred, rfl⟩ := Option.map_eq_some_iff.mp stepped
      exact reads.bar barred
  | quantifier quantifier =>
      cases quantifier with
      | error error => cases stepped
      | ok quantifier =>
          obtain ⟨layer, repeated, rfl⟩ := Option.map_eq_some_iff.mp stepped
          exact reads.repeatLast repeated
  | malformed error => cases stepped

theorem run (reads : outline.Reads capturing read) {tokens : List Token}
    (ran : outline.run tokens = some next) : next.Reads capturing (read ++ tokens) := by
  induction tokens generalizing outline read with
  | nil =>
      cases ran
      rwa [List.append_nil]
  | cons token rest ih =>
      rw [Outline.run_cons] at ran
      obtain ⟨between, stepped, later⟩ := Option.bind_eq_some_iff.mp ran
      have whole := ih (reads.step stepped) later
      rwa [List.append_assoc] at whole

theorem expression (reads : outline.Reads capturing read) {groups : Nat}
    (finished : outline.finish = some groups) :
    ∃ closed width, Phrase capturing .expression .outermost read ⟨groups, closed⟩ width := by
  obtain ⟨layer, outer, scope⟩ := outline
  obtain ⟨outside, start, before, tokens, middle, rfl, around, inside⟩ := reads
  unfold Outline.finish at finished
  split at finished
  · rename_i complete
    simp only [Bool.and_eq_true, List.isEmpty_iff] at complete
    obtain ⟨rfl, whole⟩ := complete
    obtain ⟨width, whole⟩ := Option.isSome_iff_exists.mp whole
    cases finished
    obtain ⟨rfl, rfl⟩ := around.eq_outermost
    exact ⟨scope.closed, width, inside.expression whole⟩
  · cases finished

end Outline.Reads

end Soundness

/-- The automaton accepts the expressions of the grammar and counts their groups. -/
theorem accepts_iff {capturing : Bool} {tokens : List Token} {groups : Nat} :
    ((Outline.initial capturing).run tokens).bind Outline.finish = some groups ↔
      ∃ closed width, Phrase capturing .expression .outermost tokens ⟨groups, closed⟩ width := by
  constructor
  · intro accepted
    obtain ⟨last, ran, finished⟩ := Option.bind_eq_some_iff.mp accepted
    exact ((Outline.Reads.initial capturing).run ran).expression finished
  · rintro ⟨closed, width, phrase⟩
    obtain ⟨layer, _, whole, ran⟩ := phrase.runs .bare []
    rw [Outline.initial, ran, Option.bind_some, Outline.finish, whole]
    rfl

end ByteRegex.Grammar
