import ByteRegex.Width
import ByteRegex.Proofs.Grammar.Spelling

/-!
# Phrases

The grammar of patterns over tokens. A phrase starts where some groups have been opened and closed
and ends where more of them have, so that a back-reference can be held to groups that are closed.
Its width is what a lookbehind asks of its expression.
-/

namespace ByteRegex.Grammar

/-- The capture groups in front of a place of a pattern. -/
structure Scope where
  /-- How many have been opened. -/
  groups : Nat
  closed : List Nat

def Scope.outermost : Scope := ⟨0, []⟩

inductive Nonterminal where
  | expression
  /-- The branches of an expression but for the last one, with the bar behind each of them. -/
  | alternatives
  | branch
  | piece
  | atom (repeatable : Bool)

/-- The tokens that stand for exactly one byte. -/
def isSingle : Token → Bool
  | .literal _ | .dot | .bracket _ | .inClass _ | .notInClass _ => true
  | _ => false

def isAnchor : Token → Bool
  | .caret | .dollar | .assertion _ => true
  | _ => false

/-- Openings of groups that neither capture nor look. -/
def encloses (capturing : Bool) : Opening → Bool
  | .plain => !capturing
  | .look _ => false
  | .enclosing | .atomic | .inline _ _ => true

/-- What a nonterminal derives. The scopes are those in front of the tokens and behind them. -/
inductive Phrase (capturing : Bool) :
    Nonterminal → Scope → List Token → Scope → Width → Prop where
  | single {start stop : Scope} {tokens : List Token} {width : Width}
      (branch : Phrase capturing .branch start tokens stop width) :
      Phrase capturing .expression start tokens stop width
  | several {start middle stop : Scope} {before tokens : List Token} {former width : Width}
      (alternatives : Phrase capturing .alternatives start before middle former)
      (branch : Phrase capturing .branch middle tokens stop width) (filled : tokens ≠ []) :
      Phrase capturing .expression start (before ++ tokens) stop (former.either width)
  | first {start stop : Scope} {tokens : List Token} {width : Width}
      (branch : Phrase capturing .branch start tokens stop width) (filled : tokens ≠ []) :
      Phrase capturing .alternatives start (tokens ++ [.bar]) stop width
  | next {start middle stop : Scope} {before tokens : List Token} {former width : Width}
      (alternatives : Phrase capturing .alternatives start before middle former)
      (branch : Phrase capturing .branch middle tokens stop width) (filled : tokens ≠ []) :
      Phrase capturing .alternatives start (before ++ (tokens ++ [.bar])) stop
        (former.either width)
  | empty (scope : Scope) : Phrase capturing .branch scope [] scope (.exactly 0)
  | more {start middle stop : Scope} {before tokens : List Token} {former width : Width}
      (branch : Phrase capturing .branch start before middle former)
      (piece : Phrase capturing .piece middle tokens stop width) :
      Phrase capturing .branch start (before ++ tokens) stop (former.followedBy width)
  | once {repeatable : Bool} {start stop : Scope} {tokens : List Token} {width : Width}
      (atom : Phrase capturing (.atom repeatable) start tokens stop width) :
      Phrase capturing .piece start tokens stop width
  | repeated {start stop : Scope} {tokens : List Token} {width : Width}
      (atom : Phrase capturing (.atom true) start tokens stop width) (quantifier : Quantifier) :
      Phrase capturing .piece start (tokens ++ [.quantifier (.ok quantifier)]) stop
        (width.repeated quantifier.least quantifier.most)
  | byte {token : Token} (one : isSingle token = true) (scope : Scope) :
      Phrase capturing (.atom true) scope [token] scope (.exactly 1)
  | anchor {token : Token} (condition : isAnchor token = true) (scope : Scope) :
      Phrase capturing (.atom false) scope [token] scope (.exactly 0)
  | backReference {scope : Scope} {group : Nat} (captures : capturing = true)
      (closed : group ∈ scope.closed) :
      Phrase capturing (.atom true) scope [.backReference group] scope .unknown
  /-- The group counts as opened inside itself and as closed only behind itself. -/
  | capture {start stop : Scope} {tokens : List Token} {width : Width}
      (captures : capturing = true)
      (body : Phrase capturing .expression ⟨start.groups + 1, start.closed⟩ tokens stop width) :
      Phrase capturing (.atom true) start (.opening (.ok .plain) :: (tokens ++ [.closing]))
        ⟨stop.groups, (start.groups + 1) :: stop.closed⟩ width
  | group {start stop : Scope} {tokens : List Token} {width : Width} {opening : Opening}
      (plain : encloses capturing opening = true)
      (body : Phrase capturing .expression start tokens stop width) :
      Phrase capturing (.atom true) start (.opening (.ok opening) :: (tokens ++ [.closing])) stop
        width
  /-- A lookbehind has to know how far back its expression starts. -/
  | look {start stop : Scope} {tokens : List Token} {width : Width} {direction : Look}
      (body : Phrase capturing .expression start tokens stop width)
      (fixed : direction.isBehind = true → width.fixed?.isSome = true) :
      Phrase capturing (.atom false) start
        (.opening (.ok (.look direction)) :: (tokens ++ [.closing])) stop (.exactly 0)

theorem Phrase.atom_filled {capturing repeatable : Bool} {start stop : Scope} {tokens : List Token}
    {width : Width} (atom : Phrase capturing (.atom repeatable) start tokens stop width) :
    tokens ≠ [] := by
  cases atom <;> exact List.cons_ne_nil _ _

theorem Phrase.piece_filled {capturing : Bool} {start stop : Scope} {tokens : List Token}
    {width : Width} (piece : Phrase capturing .piece start tokens stop width) : tokens ≠ [] := by
  cases piece with
  | once atom => exact atom.atom_filled
  | repeated => exact List.append_ne_nil_of_right_ne_nil _ (List.cons_ne_nil _ _)

def opensCapture (capturing : Bool) : Token → Bool
  | .opening (.ok .plain) => capturing
  | _ => false

/-- Groups are counted by the parentheses that open them. -/
theorem Phrase.groups {capturing : Bool} {nonterminal : Nonterminal} {start stop : Scope}
    {tokens : List Token} {width : Width}
    (phrase : Phrase capturing nonterminal start tokens stop width) :
    stop.groups = start.groups + tokens.countP (opensCapture capturing) := by
  have plain {token : Token} (other : opensCapture capturing token = false) :
      [token].countP (opensCapture capturing) = 0 := by simp [other]
  have bar : [Token.bar].countP (opensCapture capturing) = 0 := plain rfl
  have around (opening : Opening) (tokens : List Token) :
      (.opening (.ok opening) :: (tokens ++ [.closing])).countP (opensCapture capturing) =
        tokens.countP (opensCapture capturing) +
          if opensCapture capturing (.opening (.ok opening)) then 1 else 0 := by
    have closing : [Token.closing].countP (opensCapture capturing) = 0 := plain rfl
    rw [List.countP_cons, List.countP_append, closing, Nat.add_zero]
  induction phrase with
  | single _ ih | once _ ih => exact ih
  | several _ _ _ former latter | next _ _ _ former latter | more _ _ former latter =>
      simp only [List.countP_append, former, latter, bar]
      omega
  | first _ _ ih => rw [List.countP_append, ih, bar, Nat.add_zero]
  | repeated _ _ ih => rw [List.countP_append, ih, plain rfl, Nat.add_zero]
  | empty => rfl
  | @byte token one =>
      refine (plain ?_ ▸ rfl)
      cases token <;> first | rfl | cases one
  | @anchor token condition =>
      refine (plain ?_ ▸ rfl)
      cases token <;> first | rfl | cases condition
  | backReference => rfl
  | capture captures _ ih =>
      have opens : opensCapture capturing (.opening (.ok .plain)) = true := captures
      rw [around, if_pos opens]
      simp only [ih]
      omega
  | @group _ _ _ _ opening transparent _ ih =>
      have opens : opensCapture capturing (.opening (.ok opening)) = false := by
        cases opening with
        | plain =>
            show capturing = false
            simpa [encloses] using transparent
        | enclosing | atomic | look | inline => rfl
      rw [around, opens, ih]
      rfl
  | @look _ _ _ _ direction _ _ ih =>
      have opens : opensCapture capturing (.opening (.ok (.look direction))) = false := rfl
      rw [around, opens, ih]
      rfl

/-- A pattern that the grammar derives, with its number of capture groups. -/
def Derives (capturing : Bool) (pattern : List UInt8) (groups : Nat) : Prop :=
  ∃ tokens closed width, Lexemes pattern tokens ∧
    Phrase capturing .expression .outermost tokens ⟨groups, closed⟩ width

end ByteRegex.Grammar
