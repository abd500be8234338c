import ByteRegex.Proofs.Grammar.Lexing

/-!
# Splicing

Where a token ends is decided by no more than the byte behind it, and a parenthesis ends every token
in front of it. So the tokens in front of a place stay the same if what follows them is replaced.
-/

namespace ByteRegex.Grammar

/-- A text in a group of its own, which begins with a question mark and another byte. -/
def grouped (mark : Char) (text : List UInt8) : List UInt8 :=
  '('.toUInt8 :: '?'.toUInt8 :: mark.toUInt8 :: (text ++ [')'.toUInt8])

/-- Texts that end the same tokens in front of them. -/
def Splices (rest other : List UInt8) : Prop :=
  other.head? = rest.head? ∨ other.head? = some '('.toUInt8 ∨ other.head? = some ')'.toUInt8

variable {input rest : List UInt8}

theorem Splices.opening (rest other : List UInt8) : Splices rest ('('.toUInt8 :: other) :=
  .inr (.inl rfl)

theorem Splices.closing (rest other : List UInt8) : Splices rest (')'.toUInt8 :: other) :=
  .inr (.inr rfl)

theorem Splices.append {other : List UInt8} (splices : Splices rest other) (word : List UInt8) :
    Splices (word ++ rest) (word ++ other) := by
  cases word with
  | nil => exact splices
  | cons byte word => exact .inl rfl

/-- A byte that does not follow the old text follows the new one only if it is a parenthesis. -/
theorem Splices.forall_head? {other : List UInt8} (splices : Splices rest other)
    (property : UInt8 → Prop) (before : ∀ next ∈ rest.head?, property next)
    (opening : property '('.toUInt8) (closing : property ')'.toUInt8) :
    ∀ next ∈ other.head?, property next := by
  intro next found
  rcases splices with same | same | same
  · exact before next (same ▸ found)
  · cases same.symm.trans found
    exact opening
  · cases same.symm.trans found
    exact closing

theorem Splices.head?_ne {other : List UInt8} (splices : Splices rest other) {byte : UInt8}
    (before : rest.head? ≠ some byte) (opening : '('.toUInt8 ≠ byte) (closing : ')'.toUInt8 ≠ byte) :
    other.head? ≠ some byte :=
  fun found => splices.forall_head? (· ≠ byte) (fun _ follows same => before (same ▸ follows))
    opening closing byte found rfl

theorem head?_append_cons (front : List UInt8) (byte : UInt8) (rest other : List UInt8) :
    (front ++ byte :: rest).head? = (front ++ byte :: other).head? := by
  cases front <;> rfl

theorem EscapedByte.splice {inSet : Bool} {byte : UInt8}
    (escape : EscapedByte inSet input byte rest) :
    ∃ letter word, input = letter :: (word ++ rest) ∧
      ∀ other, Splices rest other → EscapedByte inSet (letter :: (word ++ other)) byte other := by
  cases escape with
  | @named letter _ known => exact ⟨letter, [], rfl, fun other _ => .named known other⟩
  | backspace within => exact ⟨'b'.toUInt8, [], rfl, fun other _ => .backspace within other⟩
  | @octal digits _ few octal all small =>
      refine ⟨'0'.toUInt8, digits, rfl, fun other splices => .octal few octal ?_ small⟩
      exact all.imp_right fun apart => splices.forall_head? _ apart (by decide) (by decide)
  | @hex first second _ _ leading trailing =>
      exact ⟨'x'.toUInt8, [first, second], rfl, fun other _ => .hex leading trailing other⟩
  | @control letter known =>
      exact ⟨'c'.toUInt8, [letter], rfl, fun other _ => .control known other⟩
  | itself apart => exact ⟨byte, [], rfl, fun other _ => .itself apart other⟩

theorem Member.splice {byte : UInt8} (member : Member input byte rest) :
    ∃ word, input = word ++ rest ∧
      ∀ other, Splices rest other → Member (word ++ other) byte other := by
  cases member with
  | plain unescaped => exact ⟨[byte], rfl, fun other _ => .plain unescaped other⟩
  | escaped escape =>
      obtain ⟨letter, word, rfl, escapes⟩ := escape.splice
      exact ⟨'\\'.toUInt8 :: letter :: word, rfl,
        fun other splices => .escaped (escapes other splices)⟩

/-- An item of a set stays the same as long as the rest of the set does. -/
theorem Item.splice {item : BracketItem} {front : List UInt8}
    (spelled : Item input item (front ++ ']'.toUInt8 :: rest)) :
    ∃ word, input = word ++ (front ++ ']'.toUInt8 :: rest) ∧
      ∀ other, Item (word ++ (front ++ ']'.toUInt8 :: other)) item
        (front ++ ']'.toUInt8 :: other) := by
  have splices (other : List UInt8) :
      Splices (front ++ ']'.toUInt8 :: rest) (front ++ ']'.toUInt8 :: other) :=
    .inl (head?_append_cons front _ other rest)
  cases spelled with
  | byte member alone =>
      obtain ⟨word, rfl, members⟩ := member.splice
      refine ⟨word, rfl, fun other => .byte (members _ (splices other)) fun next after same => ?_⟩
      match front with
      | [] => cases same
      | [hyphen] =>
          cases same
          rfl
      | hyphen :: second :: front =>
          cases same
          exact alone _ _ rfl
  | @range _ next _ _ _ lower upper goes ordered =>
      obtain ⟨later, rfl, uppers⟩ := upper.splice
      obtain ⟨word, rfl, lowers⟩ := lower.splice
      refine ⟨word ++ '-'.toUInt8 :: later, by simp, fun other => ?_⟩
      rw [List.append_assoc, List.cons_append]
      refine .range (lowers _ (.inl rfl)) (uppers _ (splices other)) ?_ ordered
      have same := head?_append_cons (later ++ front) ']'.toUInt8 rest other
      simp only [List.append_assoc] at same
      rwa [← same]
  | inClass kind => exact ⟨['\\'.toUInt8, classLetter kind], rfl, fun other => .inClass kind _⟩
  | notInClass kind =>
      exact ⟨['\\'.toUInt8, Ascii.toUpper (classLetter kind)], rfl, fun other => .notInClass kind _⟩

theorem Items.splice {first : Bool} {items : List BracketItem}
    (listed : Items first input items rest) :
    ∃ front, input = front ++ ']'.toUInt8 :: rest ∧
      ∀ other, Items first (front ++ ']'.toUInt8 :: other) items other := by
  induction listed with
  | done rest => exact ⟨[], rfl, fun other => .done other⟩
  | @more _ _ _ rest _ _ opens one _ ih =>
      obtain ⟨front, rfl, laters⟩ := ih
      obtain ⟨word, rfl, ones⟩ := one.splice
      refine ⟨word ++ front, by simp, fun other => ?_⟩
      rw [List.append_assoc]
      refine .more (opens.imp_right fun closes => ?_) (ones other) (laters other)
      have same := head?_append_cons (word ++ front) ']'.toUInt8 rest other
      simp only [List.append_assoc] at same
      rwa [← same]

theorem SetBody.splice {bracket : Bracket} (body : SetBody input bracket rest) :
    ∃ word, input = word ++ rest ∧ ∀ other, SetBody (word ++ other) bracket other := by
  cases body with
  | plain caret mark listed =>
      obtain ⟨front, rfl, lists⟩ := listed.splice
      refine ⟨front ++ [']'.toUInt8], by simp, fun other => ?_⟩
      have same := head?_append_cons front ']'.toUInt8 rest other
      rw [List.append_assoc]
      exact .plain (same ▸ caret) (same ▸ mark) (lists other)
  | @negated sign _ _ _ negates listed =>
      obtain ⟨front, rfl, lists⟩ := listed.splice
      refine ⟨sign :: (front ++ [']'.toUInt8]), by simp, fun other => ?_⟩
      rw [List.cons_append, List.append_assoc]
      exact .negated negates (lists other)

theorem Header.splice {opening : Opening} (header : Header input opening rest) :
    ∃ word, input = word ++ rest ∧
      ∀ other, Splices rest other → Header (word ++ other) opening other := by
  cases header with
  | plain bare =>
      exact ⟨[], rfl, fun other splices => .plain (splices.head?_ne bare (by decide) (by decide))⟩
  | enclosing => exact ⟨['?'.toUInt8, ':'.toUInt8], rfl, fun other _ => .enclosing other⟩
  | atomic => exact ⟨['?'.toUInt8, '>'.toUInt8], rfl, fun other _ => .atomic other⟩
  | ahead => exact ⟨['?'.toUInt8, '='.toUInt8], rfl, fun other _ => .ahead other⟩
  | notAhead => exact ⟨['?'.toUInt8, '!'.toUInt8], rfl, fun other _ => .notAhead other⟩
  | behind =>
      exact ⟨['?'.toUInt8, '<'.toUInt8, '='.toUInt8], rfl, fun other _ => .behind other⟩
  | notBehind =>
      exact ⟨['?'.toUInt8, '<'.toUInt8, '!'.toUInt8], rfl, fun other _ => .notBehind other⟩
  | @inline letters behind _ enable filled flags all colon =>
      let sign := if enable then [] else ['-'.toUInt8]
      rcases colon with rfl | ⟨rfl, uncoloned⟩
      · refine ⟨'?'.toUInt8 :: (sign ++ letters ++ [':'.toUInt8]), by simp [sign],
          fun other _ => ?_⟩
        rw [List.cons_append, List.append_assoc]
        exact .inline enable filled flags (fun next follows => all next follows) (.inl rfl)
      · refine ⟨'?'.toUInt8 :: (sign ++ letters), rfl, fun other splices => ?_⟩
        refine .inline enable filled flags ?_ (.inr ⟨rfl, ?_⟩)
        · exact splices.forall_head? _ all (by unfold IsFlagLetter; decide)
            (by unfold IsFlagLetter; decide)
        · exact splices.head?_ne uncoloned (by decide) (by decide)

theorem Repeats.splice {least : Nat} {most : Option Nat} (repeats : Repeats input least most rest) :
    ∃ word, input = word ++ rest ∧ ∀ other, Repeats (word ++ other) least most other := by
  cases repeats with
  | star => exact ⟨['*'.toUInt8], rfl, .star⟩
  | plus => exact ⟨['+'.toUInt8], rfl, .plus⟩
  | mark => exact ⟨['?'.toUInt8], rfl, .mark⟩
  | @braces text _ _ bounds =>
      refine ⟨0x7b :: (text ++ [0x7d]), by simp, fun other => ?_⟩
      rw [List.cons_append, List.append_assoc]
      exact .braces bounds other

theorem Repeats.length_lt {least : Nat} {most : Option Nat}
    (repeats : Repeats input least most rest) : rest.length < input.length := by
  cases repeats <;> simp
  omega

/-- In front of a parenthesis a quantifier is greedy. -/
theorem Suffix.closing (rest : List UInt8) :
    Suffix (')'.toUInt8 :: rest) .greedy (')'.toUInt8 :: rest) := by
  apply Suffix.greedy <;>
  · rw [List.head?_cons]
    decide

theorem Suffix.splice {greed : Greed} (mark : Suffix input greed rest) :
    ∃ word, input = word ++ rest ∧
      ∀ other, Splices rest other → Suffix (word ++ other) greed other := by
  cases mark with
  | lazy => exact ⟨['?'.toUInt8], rfl, fun other _ => .lazy other⟩
  | possessive => exact ⟨['+'.toUInt8], rfl, fun other _ => .possessive other⟩
  | greedy mark plus =>
      exact ⟨[], rfl, fun other splices => .greedy
        (splices.head?_ne mark (by decide) (by decide))
        (splices.head?_ne plus (by decide) (by decide))⟩

theorem Lexeme.splice {token : Token} (lexeme : Lexeme input token rest) :
    ∃ word, input = word ++ rest ∧
      ∀ other, Splices rest other → Lexeme (word ++ other) token other := by
  cases lexeme with
  | @literal byte plain => exact ⟨[byte], rfl, fun other _ => .literal plain other⟩
  | @escaped letter _ _ _ escape begins ends =>
      obtain ⟨_, word, same, escapes⟩ := escape.splice
      obtain ⟨rfl, rfl⟩ := List.cons.inj same
      exact ⟨'\\'.toUInt8 :: letter :: word, rfl,
        fun other splices => .escaped (escapes other splices) begins ends⟩
  | dot => exact ⟨['.'.toUInt8], rfl, fun other _ => .dot other⟩
  | caret => exact ⟨['^'.toUInt8], rfl, fun other _ => .caret other⟩
  | dollar => exact ⟨['$'.toUInt8], rfl, fun other _ => .dollar other⟩
  | set body =>
      obtain ⟨word, rfl, bodies⟩ := body.splice
      exact ⟨'['.toUInt8 :: word, rfl, fun other _ => .set (bodies other)⟩
  | inClass kind => exact ⟨['\\'.toUInt8, classLetter kind], rfl, fun other _ => .inClass kind other⟩
  | notInClass kind =>
      exact ⟨['\\'.toUInt8, Ascii.toUpper (classLetter kind)], rfl,
        fun other _ => .notInClass kind other⟩
  | @assertion letter _ known =>
      exact ⟨['\\'.toUInt8, letter], rfl, fun other _ => .assertion known other⟩
  | @backReference digit lower upper =>
      exact ⟨['\\'.toUInt8, digit], rfl, fun other _ => .backReference lower upper other⟩
  | opening header =>
      obtain ⟨word, rfl, headers⟩ := header.splice
      exact ⟨'('.toUInt8 :: word, rfl, fun other splices => .opening (headers other splices)⟩
  | closing => exact ⟨[')'.toUInt8], rfl, fun other _ => .closing other⟩
  | bar => exact ⟨['|'.toUInt8], rfl, fun other _ => .bar other⟩
  | quantifier repeats suffix =>
      obtain ⟨mark, rfl, marks⟩ := suffix.splice
      obtain ⟨word, rfl, bounds⟩ := repeats.splice
      refine ⟨word ++ mark, by simp, fun other splices => ?_⟩
      rw [List.append_assoc]
      exact .quantifier (bounds _) (marks other splices)

/-- A text that begins with certain tokens, and the text behind them. -/
inductive Reads : List UInt8 → List Token → List UInt8 → Prop where
  | nil (rest : List UInt8) : Reads rest [] rest
  | cons {input middle rest : List UInt8} {token : Token} {later : List Token}
      (lexeme : Lexeme input token middle) (following : Reads middle later rest) :
      Reads input (token :: later) rest

namespace Reads

variable {found : List Token}

theorem one {token : Token} (lexeme : Lexeme input token rest) : Reads input [token] rest :=
  .cons lexeme (.nil rest)

theorem append {middle : List UInt8} {earlier later : List Token}
    (front : Reads input earlier middle) (back : Reads middle later rest) :
    Reads input (earlier ++ later) rest := by
  induction front with
  | nil => exact back
  | cons lexeme _ ih => exact .cons lexeme (ih back)

theorem tokens_eq (reads : Reads input found rest) : tokens input = found ++ tokens rest := by
  induction reads with
  | nil => rfl
  | cons lexeme _ ih =>
      obtain ⟨byte, tail, rfl, read⟩ := read_of_lexeme lexeme
      rw [tokens_cons, read, ih]
      rfl

theorem exists_splice (reads : Reads input found rest) :
    ∃ word, input = word ++ rest ∧
      ∀ other, Splices rest other → Reads (word ++ other) found other := by
  induction reads with
  | nil => exact ⟨[], rfl, fun other _ => .nil other⟩
  | cons lexeme _ ih =>
      obtain ⟨later, rfl, followings⟩ := ih
      obtain ⟨word, rfl, lexemes⟩ := lexeme.splice
      refine ⟨word ++ later, by simp, fun other splices => ?_⟩
      rw [List.append_assoc]
      exact .cons (lexemes _ (splices.append later)) (followings other splices)

/-- What follows some tokens can be replaced without changing them. -/
theorem splice {word other : List UInt8} (reads : Reads (word ++ rest) found rest)
    (splices : Splices rest other) : Reads (word ++ other) found other := by
  obtain ⟨word', same, spliced⟩ := reads.exists_splice
  rw [List.append_cancel_right same]
  exact spliced other splices

end Reads

/-- What follows the bounds of a quantifier can be replaced without changing them. -/
theorem Repeats.replace {word other : List UInt8} {least : Nat} {most : Option Nat}
    (repeats : Repeats (word ++ rest) least most rest) :
    Repeats (word ++ other) least most other := by
  obtain ⟨word', same, bounds⟩ := repeats.splice
  rw [List.append_cancel_right same]
  exact bounds other

end ByteRegex.Grammar
