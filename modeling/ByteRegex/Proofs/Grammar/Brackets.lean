import ByteRegex.Pattern.Parse
import ByteRegex.Proofs.Grammar.Splicing
import ByteRegex.Proofs.Semantics.Caseless

/-!
# What sets hold

The bitmap of a set has the bits of the bytes that its items stand for, whatever the order of the
items and however they overlap. Case is disregarded before the set is negated, and the newline is
left out of it afterwards.
-/

namespace ByteRegex.Grammar

/-- The bytes that an item of a set stands for. -/
inductive ItemHolds : BracketItem → UInt8 → Prop where
  | byte (byte : UInt8) : ItemHolds (.byte byte) byte
  | range {low high byte : UInt8} (above : low ≤ byte) (below : byte ≤ high) :
      ItemHolds (.range low high) byte
  | inClass {kind : ByteClass} {byte : UInt8} (inside : kind.contains byte = true) :
      ItemHolds (.inClass kind) byte
  | notInClass {kind : ByteClass} {byte : UInt8} (outside : kind.contains byte = false) :
      ItemHolds (.notInClass kind) byte

/-- The union of the items, closed under case if that is disregarded. -/
def ItemsHold (caseless : Bool) (items : List BracketItem) (byte : UInt8) : Prop :=
  ∃ item ∈ items, ∃ member, ItemHolds item member ∧
    Ascii.fold caseless member = Ascii.fold caseless byte

theorem itemHolds_iff {item : BracketItem} {byte : UInt8} :
    ItemHolds item byte ↔ item.contains byte = true := by
  constructor
  · intro holds
    cases holds with
    | byte => exact decide_eq_true rfl
    | range above below =>
        exact Bool.and_eq_true_iff.mpr ⟨decide_eq_true above, decide_eq_true below⟩
    | inClass inside => exact inside
    | notInClass outside => exact (congrArg Bool.not outside).trans rfl
  · intro contained
    cases item with
    | byte member =>
        cases of_decide_eq_true contained
        exact .byte byte
    | range low high =>
        obtain ⟨above, below⟩ := Bool.and_eq_true_iff.mp contained
        exact .range (of_decide_eq_true above) (of_decide_eq_true below)
    | inClass kind => exact .inClass contained
    | notInClass kind => exact .notInClass (Bool.not_eq_eq_eq_not.mp contained)

theorem any_contains_iff {items : List BracketItem} {byte : UInt8} :
    items.any (·.contains byte) = true ↔ ∃ item ∈ items, ItemHolds item byte := by
  simp only [List.any_eq_true, itemHolds_iff]

/-- Looking for both cases of a letter finds what is closed under case. -/
theorem covers_iff {bracket : Bracket} {caseless : Bool} {byte : UInt8} :
    bracket.covers caseless byte = true ↔ ItemsHold caseless bracket.items byte := by
  have direct : ∀ {member}, (∃ item ∈ bracket.items, ItemHolds item member) →
      bracket.covers caseless member = true := fun held =>
    Bool.or_eq_true_iff.mpr (.inl (any_contains_iff.mpr held))
  constructor
  · intro covered
    simp only [Bracket.covers, Bool.or_eq_true, Bool.and_eq_true, any_contains_iff] at covered
    rcases covered with ⟨item, listed, holds⟩ |
      ⟨⟨rfl, _⟩, ⟨item, listed, holds⟩ | ⟨item, listed, holds⟩⟩
    · exact ⟨item, listed, byte, holds, rfl⟩
    · exact ⟨item, listed, _, holds, Ascii.toLower_toLower byte⟩
    · have same : ∀ byte, Ascii.toLower (Ascii.toUpper byte) = Ascii.toLower byte :=
        byte_cases (by decide +kernel)
      exact ⟨item, listed, _, holds, same byte⟩
  · rintro ⟨item, listed, member, holds, same⟩
    have covered := direct ⟨item, listed, holds⟩
    cases caseless with
    | false => exact (congrArg (bracket.covers false) same).symm.trans covered
    | true => exact (Ascii.eq_of_toLower_eq bracket.covers_toLower same).symm.trans covered

/-- A negated set is turned around after case is disregarded and before the newline is left out. -/
theorem contains_toByteSet_iff {bracket : Bracket} {flags : Flags} {byte : UInt8} :
    (bracket.toByteSet flags).contains byte = true ↔
      bracket.negated = false ∧ ItemsHold flags.caseless bracket.items byte ∨
      bracket.negated = true ∧ ¬ ItemsHold flags.caseless bracket.items byte ∧
        ¬ (flags.newline = true ∧ byte = Ascii.newline) := by
  rw [Bracket.toByteSet, ByteSet.contains_ofPredicate, Bracket.denotes, ← covers_iff]
  cases bracket.negated with
  | false => simp
  | true => cases flags.newline <;> simp

/-- A set ends at its closing bracket. -/
theorem SetBody.exists_front {input rest : List UInt8} {bracket : Bracket}
    (body : SetBody input bracket rest) : ∃ front, input = front ++ ']'.toUInt8 :: rest := by
  cases body with
  | plain _ _ listed =>
      obtain ⟨front, same, _⟩ := listed.splice
      exact ⟨front, same⟩
  | @negated sign _ _ _ _ listed =>
      obtain ⟨front, same, _⟩ := listed.splice
      exact ⟨sign :: front, congrArg (List.cons sign) same⟩

/-- A set that is accepted is spelled in one way, up to its closing bracket, and becomes a bitmap of
exactly the bytes that this spelling denotes. -/
theorem contains_toByteSet_of_read {input rest : List UInt8} {bracket : Bracket}
    (read : Bracket.read input = .ok (bracket, rest)) :
    SetBody input bracket rest ∧
    (∀ other behind, SetBody input other behind → other = bracket ∧ behind = rest) ∧
    (∃ front, input = front ++ ']'.toUInt8 :: rest) ∧
    Token.read '['.toUInt8 input = (.bracket bracket, rest) ∧
    (∀ state settled : ParseState, state.settle = .ok settled →
      state.step (.bracket bracket) = .ok (settled.withFrame (settled.frame.await
        (.atom (.single (.set (bracket.toByteSet state.frame.flags))))))) ∧
    ∀ (flags : Flags) (byte : UInt8), (bracket.toByteSet flags).contains byte = true ↔
      bracket.negated = false ∧ ItemsHold flags.caseless bracket.items byte ∨
      bracket.negated = true ∧ ¬ ItemsHold flags.caseless bracket.items byte ∧
        ¬ (flags.newline = true ∧ byte = Ascii.newline) := by
  have body := readSet_sound read
  refine ⟨body, fun other behind another => ?_, body.exists_front, ?_, fun state settled done => ?_,
    fun flags byte => contains_toByteSet_iff⟩
  · have same := Except.ok.inj ((readSet_complete another).symm.trans read)
    exact Prod.mk.inj same
  · rw [Token.read, if_neg (by decide), if_neg (by decide), if_neg (by decide),
      if_neg (by decide), if_pos rfl, read]
  · rw [ParseState.step, ParseState.addAtom, done]
    rfl

theorem contains_toByteSet_of_read_negated :
    Bracket.read [94, 93, 45, 97, 92, 100, 93, 120] =
        .ok (⟨true, [.range 93 97, .inClass .digit]⟩, [120]) ∧
      ∀ (flags : Flags) (byte : UInt8),
        (Bracket.toByteSet ⟨true, [.range 93 97, .inClass .digit]⟩ flags).contains byte = true ↔
          ¬ ItemsHold flags.caseless [.range 93 97, .inClass .digit] byte ∧
            ¬ (flags.newline = true ∧ byte = Ascii.newline) := by
  have range : Item [93, 45, 97, 92, 100, 93, 120] (.range 93 97) [92, 100, 93, 120] :=
    .range (.plain (by decide) _) (.plain (by decide) _) (by decide) (by decide)
  have read : Bracket.read [94, 93, 45, 97, 92, 100, 93, 120] =
      .ok (⟨true, [.range 93 97, .inClass .digit]⟩, [120]) :=
    readSet_complete (.negated (.inl rfl) (.more (.inl rfl) range
      (.more (.inr (by decide)) (.inClass .digit _) (.done _))))
  obtain ⟨_, _, _, _, _, holds⟩ := contains_toByteSet_of_read read
  refine ⟨read, fun flags byte => ?_⟩
  simpa only [Bool.true_eq_false, false_and, false_or, true_and] using holds flags byte

end ByteRegex.Grammar
