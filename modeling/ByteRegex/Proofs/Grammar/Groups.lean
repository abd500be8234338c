import ByteRegex.Proofs.Grammar.Spelling

/-!
# Group headers

What is read behind an opening parenthesis is what is spelled there. Flag letters are read as far as
they go.
-/

namespace ByteRegex.Grammar

theorem ofInlineLetter?_iff {letter : UInt8} {flag : Flags} :
    Flags.ofInlineLetter? letter = some flag ↔ IsFlagLetter letter ∧ flag = flagsOf [letter] := by
  unfold Flags.ofInlineLetter?
  constructor
  · intro found
    split at found
    · rename_i same
      cases found
      exact ⟨.inl same, by rw [same]; rfl⟩
    · split at found
      · rename_i same
        cases found
        exact ⟨.inr same, by rw [same]; rfl⟩
      · cases found
  · rintro ⟨rfl | rfl, rfl⟩ <;> rfl

theorem union_flagsOf_nil (met : Flags) : met.union (flagsOf []) = met := by
  simp [Flags.union, flagsOf, Flags.none]

theorem union_flagsOf_cons (met : Flags) (letter : UInt8) (letters : List UInt8) :
    (met.union (flagsOf [letter])).union (flagsOf letters) =
      met.union (flagsOf (letter :: letters)) := by
  simp only [Flags.union, flagsOf, Flags.none, List.contains_cons, List.contains_nil, Bool.or_false,
    Bool.or_assoc]

theorem flagsOf_ne_none {letter : UInt8} {letters : List UInt8} (flag : IsFlagLetter letter) :
    flagsOf (letter :: letters) ≠ .none := by
  intro none
  rcases flag with rfl | rfl
  · exact absurd (congrArg Flags.caseless none) (by simp [flagsOf, Flags.none])
  · exact absurd (congrArg Flags.newline none) (by simp [flagsOf, Flags.none])

theorem readLetters_sound (met : Flags) (input : List UInt8) :
    ∃ letters, input = letters ++ (Opening.readLetters met input).2 ∧
      (∀ letter ∈ letters, IsFlagLetter letter) ∧
      (∀ next ∈ (Opening.readLetters met input).2.head?, ¬IsFlagLetter next) ∧
      (Opening.readLetters met input).1 = met.union (flagsOf letters) := by
  induction input generalizing met with
  | nil => exact ⟨[], rfl, nofun, nofun, (union_flagsOf_nil met).symm⟩
  | cons letter rest ih =>
      simp only [Opening.readLetters]
      split
      · rename_i flag found
        obtain ⟨known, rfl⟩ := ofInlineLetter?_iff.mp found
        obtain ⟨letters, parts, flags, stops, value⟩ := ih (met.union (flagsOf [letter]))
        refine ⟨letter :: letters, congrArg (letter :: ·) parts, ?_, stops,
          value.trans (union_flagsOf_cons ..)⟩
        intro other member
        rcases List.mem_cons.mp member with same | later
        · exact same ▸ known
        · exact flags other later
      · rename_i unknown
        refine ⟨[], rfl, nofun, fun next first known => ?_, (union_flagsOf_nil met).symm⟩
        cases first
        rw [ofInlineLetter?_iff.mpr ⟨known, rfl⟩] at unknown
        cases unknown

theorem readLetters_complete (met : Flags) {letters behind : List UInt8}
    (flags : ∀ letter ∈ letters, IsFlagLetter letter)
    (all : ∀ next ∈ behind.head?, ¬IsFlagLetter next) :
    Opening.readLetters met (letters ++ behind) = (met.union (flagsOf letters), behind) := by
  induction letters generalizing met with
  | nil =>
      rw [union_flagsOf_nil]
      cases behind with
      | nil => rfl
      | cons next after =>
          have unknown : Flags.ofInlineLetter? next = none := by
            cases found : Flags.ofInlineLetter? next with
            | none => rfl
            | some flag => exact absurd (ofInlineLetter?_iff.mp found).1 (all next rfl)
          simp only [List.nil_append, Opening.readLetters, unknown]
  | cons letter letters ih =>
      have known := ofInlineLetter?_iff.mpr ⟨flags letter (List.mem_cons_self ..), rfl⟩
      rw [List.cons_append, Opening.readLetters, known]
      exact (ih _ fun other member => flags other (List.mem_cons_of_mem _ member)).trans
        (by rw [union_flagsOf_cons])

theorem skipColon_sound (behind : List UInt8) :
    behind = ':'.toUInt8 :: Opening.skipColon behind ∨
      behind = Opening.skipColon behind ∧
        (Opening.skipColon behind).head? ≠ some ':'.toUInt8 := by
  cases behind with
  | nil => exact .inr ⟨rfl, nofun⟩
  | cons byte rest =>
      simp only [Opening.skipColon]
      split
      · rename_i colon
        exact .inl (by rw [colon])
      · rename_i other
        exact .inr ⟨rfl, by simpa using other⟩

theorem skipColon_complete {behind rest : List UInt8}
    (colon : behind = ':'.toUInt8 :: rest ∨ behind = rest ∧ rest.head? ≠ some ':'.toUInt8) :
    Opening.skipColon behind = rest := by
  rcases colon with rfl | ⟨rfl, other⟩
  · rfl
  · cases behind with
    | nil => rfl
    | cons byte rest => exact if_neg (by simpa using other)

theorem union_none (flags : Flags) : Flags.none.union flags = flags := by
  simp [Flags.union, Flags.none]

theorem readFlags_sound {enable : Bool} {input : List UInt8} {opening : Opening}
    (read : (Opening.readFlags enable input).1 = .ok opening) :
    Header ('?'.toUInt8 :: ((if enable then [] else ['-'.toUInt8]) ++ input)) opening
      (Opening.readFlags enable input).2 := by
  obtain ⟨letters, parts, flags, stops, value⟩ := readLetters_sound .none input
  rw [union_none] at value
  simp only [Opening.readFlags] at read ⊢
  generalize Opening.readLetters .none input = found at parts stops value read ⊢
  rw [value] at read ⊢
  split at read
  · cases read
  · rename_i some
    cases read
    rw [if_neg some, parts, ← List.append_assoc]
    refine .inline enable (fun none => some ?_) flags stops (skipColon_sound _)
    rw [none]
    rfl

theorem readFlags_complete (enable : Bool) {letters behind rest : List UInt8}
    (filled : letters ≠ [])
    (flags : ∀ letter ∈ letters, IsFlagLetter letter)
    (all : ∀ next ∈ behind.head?, ¬IsFlagLetter next)
    (colon : behind = ':'.toUInt8 :: rest ∨ behind = rest ∧ rest.head? ≠ some ':'.toUInt8) :
    Opening.readFlags enable (letters ++ behind) =
      (.ok (.inline enable (flagsOf letters)), rest) := by
  have some : flagsOf letters ≠ .none := by
    cases letters with
    | nil => exact absurd rfl filled
    | cons letter later => exact flagsOf_ne_none (flags letter (List.mem_cons_self ..))
  simp only [Opening.readFlags, readLetters_complete .none flags all, union_none, some, if_false,
    skipColon_complete colon]

theorem readBehind_sound {input : List UInt8} {opening : Opening}
    (read : (Opening.readBehind input).1 = .ok opening) :
    Header ('?'.toUInt8 :: '<'.toUInt8 :: input) opening (Opening.readBehind input).2 := by
  unfold Opening.readBehind at read ⊢
  split at read
  · cases read
  · split at read
    · rename_i same
      cases read
      rw [if_pos same, same]
      exact .behind _
    · rename_i differs
      rw [if_neg differs]
      split at read
      · rename_i same
        cases read
        rw [if_pos same, same]
        exact .notBehind _
      · cases read

theorem readSpecial_sound {input : List UInt8} {opening : Opening}
    (read : (Opening.readSpecial input).1 = .ok opening) :
    Header ('?'.toUInt8 :: input) opening (Opening.readSpecial input).2 := by
  cases input with
  | nil => cases read
  | cons byte rest =>
      simp only [Opening.readSpecial] at read ⊢
      by_cases colon : byte = ':'.toUInt8
      · rw [if_pos colon] at read ⊢
        cases read
        exact colon ▸ .enclosing rest
      rw [if_neg colon] at read ⊢
      by_cases cut : byte = '>'.toUInt8
      · rw [if_pos cut] at read ⊢
        cases read
        exact cut ▸ .atomic rest
      rw [if_neg cut] at read ⊢
      by_cases equal : byte = '='.toUInt8
      · rw [if_pos equal] at read ⊢
        cases read
        exact equal ▸ .ahead rest
      rw [if_neg equal] at read ⊢
      by_cases bang : byte = '!'.toUInt8
      · rw [if_pos bang] at read ⊢
        cases read
        exact bang ▸ .notAhead rest
      rw [if_neg bang] at read ⊢
      by_cases less : byte = '<'.toUInt8
      · rw [if_pos less] at read ⊢
        exact less ▸ readBehind_sound read
      rw [if_neg less] at read ⊢
      by_cases minus : byte = '-'.toUInt8
      · rw [if_pos minus] at read ⊢
        exact minus ▸ readFlags_sound read
      rw [if_neg minus] at read ⊢
      exact readFlags_sound read

theorem readOpening_sound {input : List UInt8} {opening : Opening}
    (read : (Opening.read input).1 = .ok opening) :
    Header input opening (Opening.read input).2 := by
  cases input with
  | nil =>
      cases read
      exact .plain nofun
  | cons byte rest =>
      simp only [Opening.read] at read ⊢
      by_cases mark : byte = '?'.toUInt8
      · rw [if_pos mark] at read ⊢
        exact mark ▸ readSpecial_sound read
      · rw [if_neg mark] at read ⊢
        cases read
        exact .plain (by simpa using mark)

theorem readOpening_complete {input rest : List UInt8} {opening : Opening}
    (header : Header input opening rest) : Opening.read input = (.ok opening, rest) := by
  cases header with
  | plain bare =>
      cases input with
      | nil => rfl
      | cons byte tail => exact if_neg (by simpa using bare)
  | enclosing | atomic | ahead | notAhead | behind | notBehind => rfl
  | @inline letters behind _ enable filled flags all colon =>
      have reads := readFlags_complete enable filled flags all colon
      cases enable with
      | false => exact reads
      | true =>
          cases letters with
          | nil => exact absurd rfl filled
          | cons letter later =>
              rcases flags letter (List.mem_cons_self ..) with rfl | rfl <;> exact reads

end ByteRegex.Grammar
