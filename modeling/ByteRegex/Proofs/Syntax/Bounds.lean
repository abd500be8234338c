import ByteRegex.Pattern.Token
import ByteRegex.Proofs.Syntax.WellFormed

/-!
# Bounds of quantifiers

Every quantifier that is read has its bounds in order, and both of them fit into an operand.
-/

namespace ByteRegex

theorem exists_of_bind {ε α β : Type} {first : Except ε α} {rest : α → Except ε β} {result : β}
    (done : first >>= rest = .ok result) : ∃ value, first = .ok value ∧ rest value = .ok result := by
  cases first with
  | error error => cases done
  | ok value => exact ⟨value, rfl, done⟩

theorem exists_of_map {ε α β : Type} {first : Except ε α} {change : α → β} {result : β}
    (done : first.map change = .ok result) : ∃ value, first = .ok value ∧ change value = result := by
  cases first with
  | error error => cases done
  | ok value => exact ⟨value, rfl, Except.ok.inj done⟩

/-- What the step for every item keeps holds at the end of a fold. -/
theorem foldlM_invariant {ε α β : Type} {step : β → α → Except ε β} (invariant : β → Prop)
    {items : List α} (kept : ∀ item ∈ items, ∀ value next, step value item = .ok next →
      invariant value → invariant next)
    {value result : β} (start : invariant value)
    (folded : items.foldlM step value = .ok result) : invariant result := by
  induction items generalizing value with
  | nil =>
      cases folded
      exact start
  | cons item rest ih =>
      rw [List.foldlM_cons] at folded
      obtain ⟨next, stepped, later⟩ := exists_of_bind folded
      have first := kept item (List.mem_cons_self ..) value next stepped start
      exact ih (fun other member => kept other (List.mem_cons_of_mem _ member)) first later

namespace Quantifier

theorem readBound_le {digits : List UInt8} {number : Nat}
    (read : readBound digits = .ok number) : number ≤ Capacity.bound := by
  unfold readBound at read
  split at read
  · cases read
  · refine foldlM_invariant (· ≤ Capacity.bound) (fun digit _ value next stepped _ => ?_)
      (Nat.zero_le _) read
    dsimp only at stepped
    split at stepped
    · rename_i small
      cases stepped
      exact small
    · cases stepped

/-- The bounds that a quantifier may have. -/
def Ordered (bounds : Nat × Option Nat) : Prop :=
  bounds.1 ≤ Capacity.bound ∧
    ∀ most ∈ bounds.2, 1 ≤ most ∧ bounds.1 ≤ most ∧ most ≤ Capacity.bound

theorem checkBounds_ordered {least : Nat} {most : Option Nat} {bounds : Nat × Option Nat}
    (low : least ≤ Capacity.bound) (high : ∀ largest ∈ most, largest ≤ Capacity.bound)
    (checked : checkBounds least most = .ok bounds) : Ordered bounds := by
  unfold checkBounds at checked
  split at checked
  · cases checked
    exact ⟨low, fun _ none => nomatch none⟩
  · split at checked
    · cases checked
    · rename_i ordered
      cases checked
      simp only [Bool.or_eq_true, decide_eq_true_eq, not_or, Nat.not_lt] at ordered
      refine ⟨low, fun largest same => ?_⟩
      have bounded := high largest same
      cases same
      exact ⟨Nat.pos_of_ne_zero ordered.1, ordered.2, bounded⟩

theorem readBounds_ordered {text : List UInt8} {bounds : Nat × Option Nat}
    (read : readBounds text = .ok bounds) : Ordered bounds := by
  unfold readBounds at read
  dsimp only at read
  split at read
  · obtain ⟨number, found, checked⟩ := exists_of_bind read
    have small := readBound_le found
    refine checkBounds_ordered small (fun largest same => ?_) checked
    cases same
    exact small
  · split at read
    · cases read
    · have upper : ∀ least ≤ Capacity.bound, ∀ high : List UInt8,
          (if high.isEmpty then (.ok none : Except CompileError (Option Nat)) >>= checkBounds least
            else (readBound high).map some >>= checkBounds least) = .ok bounds →
          Ordered bounds := by
        intro least small high read
        split at read
        · obtain ⟨most, none, checked⟩ := exists_of_bind read
          cases none
          exact checkBounds_ordered small (fun _ absent => by cases absent) checked
        · obtain ⟨most, high, checked⟩ := exists_of_bind read
          obtain ⟨number, found, same⟩ := exists_of_map high
          refine checkBounds_ordered small (fun largest bound => ?_) checked
          subst same
          cases bound
          exact readBound_le found
      split at read
      · obtain ⟨least, low, later⟩ := exists_of_bind read
        cases low
        exact upper 0 (Nat.zero_le _) _ later
      · obtain ⟨least, low, later⟩ := exists_of_bind read
        exact upper least (readBound_le low) _ later

theorem withGreed_valid {bounds : Except CompileError (Nat × Option Nat)} {rest : List UInt8}
    {quantifier : Quantifier} (ordered : ∀ found, bounds = .ok found → Ordered found)
    (read : (withGreed bounds rest).1 = .ok quantifier) : quantifier.Valid := by
  cases bounds with
  | error error => cases read
  | ok found =>
      have held := ordered found rfl
      cases read
      exact ⟨held.1, held.2⟩

theorem read_valid {byte : UInt8} {rest : List UInt8} {quantifier : Quantifier}
    (read : (Quantifier.read byte rest).1 = .ok quantifier) : quantifier.Valid := by
  unfold Quantifier.read at read
  split at read
  · refine withGreed_valid (fun found same => ?_) read
    cases same
    exact ⟨Nat.zero_le _, fun _ none => nomatch none⟩
  · split at read
    · refine withGreed_valid (fun found same => ?_) read
      cases same
      exact ⟨by decide, fun _ none => nomatch none⟩
    · split at read
      · refine withGreed_valid (fun found same => ?_) read
        cases same
        refine ⟨Nat.zero_le _, fun most same => ?_⟩
        cases same
        decide
      · split at read
        · cases read
        · exact withGreed_valid (fun _ => readBounds_ordered) read

end Quantifier

/-- A token whose quantifier, if it has one, is valid. -/
def Token.Valid : Token → Prop
  | quantifier read => ∀ found, read = .ok found → found.Valid
  | _ => True

theorem Token.readEscape_valid (rest : List UInt8) : (Token.readEscape rest).1.Valid := by
  unfold readEscape
  split
  · trivial
  · split
    · rename_i token found
      obtain ⟨kind, _, same⟩ := Option.map_eq_some_iff.mp found
      subst same
      split <;> trivial
    · repeat' split
      all_goals trivial

theorem Token.read_valid (byte : UInt8) (rest : List UInt8) :
    (Token.read byte rest).1.Valid := by
  unfold Token.read
  repeat' split
  all_goals first
    | exact readEscape_valid rest
    | exact fun _ => Quantifier.read_valid
    | trivial

end ByteRegex
