import ByteRegex.Proofs.Bytecode.Row
import ByteRegex.Proofs.Syntax.WellFormed

/-!
# Fragments

A fragment is a row whose jumps stay among its own instructions, go behind it, or leave for one of
the exits that its surroundings allow. It never jumps into a region that runs as a call of its own,
nor to a test that is being repeated.
-/

namespace ByteRegex

namespace Instruction

/-- Where an instruction jumps to, or where it goes on behind a region. -/
def target? : Instruction → Option Nat
  | jump target | branch target | branchReverse target | look _ _ target | atomic target
  | jumpLess _ _ target | jumpAtLeast _ _ target | jumpStuck _ target => some target
  | _ => none

/-- Whether the instructions up to the target run as a call. -/
def encloses : Instruction → Bool
  | look _ _ _ | atomic _ => true
  | _ => false

def repeats : Instruction → Bool
  | repetition _ _ _ => true
  | _ => false

end Instruction

namespace Entry

/-- Whether the operands are in range. A finished fragment has no instruction that ends or fails a
whole attempt. -/
def Sound (entry : Entry) : Prop :=
  match entry.instruction with
  | .text _ first last =>
      2 ≤ last - first ∧ last - first ≤ Capacity.literal ∧ last = entry.next
  | .repetition greed least most => Quantifier.Valid ⟨least, most, greed⟩
  | .succeed | .fail => False
  | _ => True

/-- Whether an address is inside the region of an entry. -/
def Contains (entry : Entry) (address : Nat) : Prop :=
  entry.instruction.encloses = true ∧ entry.next ≤ address ∧
    ∃ target, entry.instruction.target? = some target ∧ address < target

end Entry

structure Fragment (code : Code) (exits : List Nat) (start : Nat) (entries : List Entry)
    (stop : Nat) : Prop where
  row : code.Row start entries stop
  sound : ∀ entry ∈ entries, entry.Sound
  lands : ∀ entry ∈ entries, ∀ target, entry.instruction.target? = some target →
    target = stop ∨ target ∈ entries.map Entry.address ∨ target ∈ exits
  delimited : ∀ entry ∈ entries, entry.instruction.encloses = true →
    ∃ last ∈ entries, last.instruction = .subEnd ∧ entry.next ≤ last.address ∧
      entry.instruction.target? = some last.next
  crossing : ∀ region ∈ entries, ∀ entry ∈ entries, ∀ target,
    entry.instruction.target? = some target → (region.Contains entry.address ↔ region.Contains target)
  tested : ∀ entry ∈ entries, entry.instruction.repeats = true →
    ∃ single ∈ entries, single.address = entry.next ∧ ∃ test, single.instruction = .test test
  untargeted : ∀ entry ∈ entries, entry.instruction.repeats = true → ∀ other ∈ entries,
    other.instruction.target? ≠ some entry.next

namespace Code.Row

variable {code : Code} {start stop : Nat} {entries : List Entry}

theorem start_mem (row : code.Row start entries stop) :
    start = stop ∨ start ∈ entries.map Entry.address := by
  cases row with
  | nil => exact .inl rfl
  | cons => exact .inr (List.mem_cons_self ..)

theorem address_bounds (row : code.Row start entries stop) {address : Nat}
    (listed : address ∈ entries.map Entry.address) : start ≤ address ∧ address < stop := by
  obtain ⟨entry, member, same⟩ := List.mem_map.mp listed
  have bounds := row.mem_bounds member
  omega

end Code.Row

namespace Fragment

variable {code : Code} {exits : List Nat} {start middle stop : Nat}
  {entries first second : List Entry}

/-- Regions lie strictly inside their fragment. -/
theorem contains_bounds (fragment : Fragment code exits start entries stop) {region : Entry}
    (member : region ∈ entries) {address : Nat} (inside : region.Contains address) :
    start < address ∧ address < stop := by
  obtain ⟨encloses, after, target, goes, before⟩ := inside
  obtain ⟨last, among, _, _, ends⟩ := fragment.delimited region member encloses
  have here := fragment.row.mem_bounds member
  have there := fragment.row.mem_bounds among
  rw [goes] at ends
  cases ends
  omega

/-- Repeated tests lie strictly inside their fragment. -/
theorem repeat_bounds (fragment : Fragment code exits start entries stop) {entry : Entry}
    (member : entry ∈ entries) (repeats : entry.instruction.repeats = true) :
    start < entry.next ∧ entry.next < stop := by
  obtain ⟨single, among, same, _⟩ := fragment.tested entry member repeats
  have here := fragment.row.mem_bounds member
  have there := fragment.row.mem_bounds among
  omega

theorem target_bounds (fragment : Fragment code exits start entries stop) {entry : Entry}
    (member : entry ∈ entries) {target : Nat} (goes : entry.instruction.target? = some target) :
    (start ≤ target ∧ target ≤ stop) ∨ target ∈ exits := by
  rcases fragment.lands entry member target goes with same | listed | leaves
  · have whole := fragment.row.le
    omega
  · have bounds := fragment.row.address_bounds listed
    omega
  · exact .inr leaves

theorem nil (code : Code) (exits : List Nat) (address : Nat) :
    Fragment code exits address [] address where
  row := .nil address
  sound := by simp
  lands := by simp
  delimited := by simp
  crossing := by simp
  tested := by simp
  untargeted := by simp

theorem single {address next : Nat} {instruction : Instruction}
    (read : code.instruction? address = some (instruction, next))
    (sound : Entry.Sound ⟨address, instruction, next⟩) (flat : instruction.encloses = false)
    (once : instruction.repeats = false)
    (leaves : ∀ target, instruction.target? = some target → target ∈ exits) :
    Fragment code exits address [⟨address, instruction, next⟩] next where
  row := .single read
  sound := by simpa using sound
  lands := by
    intro entry member target goes
    rw [List.mem_singleton.mp member] at goes
    exact .inr (.inr (leaves target goes))
  delimited := by simp [flat]
  crossing := by simp [Entry.Contains, flat]
  tested := by simp [once]
  untargeted := by simp [once]

/-- Exits that are not strictly inside a stretch of code. -/
def Avoids (exits : List Nat) (start stop : Nat) : Prop :=
  ∀ exit ∈ exits, exit ≤ start ∨ stop ≤ exit

theorem append (former : Fragment code exits start first middle)
    (latter : Fragment code exits middle second stop) (ahead : Avoids exits start middle)
    (behind : Avoids exits middle stop) : Fragment code exits start (first ++ second) stop where
  row := former.row.append latter.row
  sound := by
    intro entry member
    rcases List.mem_append.mp member with inFirst | inSecond
    · exact former.sound entry inFirst
    · exact latter.sound entry inSecond
  lands := by
    intro entry member target goes
    rw [List.map_append, List.mem_append]
    rcases List.mem_append.mp member with inFirst | inSecond
    · rcases former.lands entry inFirst target goes with same | listed | leaves
      · rcases latter.row.start_mem with nothing | listed
        · exact .inl (same.trans nothing)
        · exact .inr (.inl (.inr (same ▸ listed)))
      · exact .inr (.inl (.inl listed))
      · exact .inr (.inr leaves)
    · rcases latter.lands entry inSecond target goes with same | listed | leaves
      · exact .inl same
      · exact .inr (.inl (.inr listed))
      · exact .inr (.inr leaves)
  delimited := by
    intro entry member encloses
    rcases List.mem_append.mp member with inFirst | inSecond
    · obtain ⟨last, among, rest⟩ := former.delimited entry inFirst encloses
      exact ⟨last, List.mem_append_left _ among, rest⟩
    · obtain ⟨last, among, rest⟩ := latter.delimited entry inSecond encloses
      exact ⟨last, List.mem_append_right _ among, rest⟩
  crossing := by
    intro region hosts entry member target goes
    rcases List.mem_append.mp hosts with hostsFirst | hostsSecond
    · rcases List.mem_append.mp member with inFirst | inSecond
      · exact former.crossing region hostsFirst entry inFirst target goes
      · have place := latter.row.mem_bounds inSecond
        refine ⟨fun inside => ?_, fun inside => ?_⟩
        · have bounds := former.contains_bounds hostsFirst inside
          omega
        · have bounds := former.contains_bounds hostsFirst inside
          rcases latter.target_bounds inSecond goes with near | leaves
          · omega
          · have outside := ahead target leaves
            omega
    · rcases List.mem_append.mp member with inFirst | inSecond
      · have place := former.row.mem_bounds inFirst
        refine ⟨fun inside => ?_, fun inside => ?_⟩
        · have bounds := latter.contains_bounds hostsSecond inside
          omega
        · have bounds := latter.contains_bounds hostsSecond inside
          rcases former.target_bounds inFirst goes with near | leaves
          · omega
          · have outside := behind target leaves
            omega
      · exact latter.crossing region hostsSecond entry inSecond target goes
  tested := by
    intro entry member repeats
    rcases List.mem_append.mp member with inFirst | inSecond
    · obtain ⟨single, among, rest⟩ := former.tested entry inFirst repeats
      exact ⟨single, List.mem_append_left _ among, rest⟩
    · obtain ⟨single, among, rest⟩ := latter.tested entry inSecond repeats
      exact ⟨single, List.mem_append_right _ among, rest⟩
  untargeted := by
    intro entry member repeats other among goes
    rcases List.mem_append.mp member with inFirst | inSecond
    · have bounds := former.repeat_bounds inFirst repeats
      rcases List.mem_append.mp among with fromFirst | fromSecond
      · exact former.untargeted entry inFirst repeats other fromFirst goes
      · rcases latter.target_bounds fromSecond goes with near | leaves
        · omega
        · have outside := ahead _ leaves
          omega
    · have bounds := latter.repeat_bounds inSecond repeats
      rcases List.mem_append.mp among with fromFirst | fromSecond
      · rcases former.target_bounds fromFirst goes with near | leaves
        · omega
        · have outside := behind _ leaves
          omega
      · exact latter.untargeted entry inSecond repeats other fromSecond goes

/-- A body between instructions that only jump around it. -/
theorem around {head tail : Nat} {before after : List Entry}
    (entering : code.Row start before head) (body : Fragment code [] head entries tail)
    (leaving : code.Row tail after stop) (avoids : Avoids exits head tail)
    (controls : ∀ entry ∈ before ++ after, entry.Sound ∧ entry.instruction.encloses = false ∧
      entry.instruction.repeats = false ∧
      ∀ target, entry.instruction.target? = some target → target ∈ exits) :
    Fragment code exits start (before ++ (entries ++ after)) stop := by
  have parts : ∀ entry ∈ before ++ (entries ++ after), entry ∈ entries ∨ entry ∈ before ++ after := by
    simp only [List.mem_append]
    grind
  have among : ∀ entry ∈ entries, entry ∈ before ++ (entries ++ after) := fun entry member =>
    List.mem_append_right _ (List.mem_append_left _ member)
  have outside : ∀ entry ∈ before ++ after, entry.address < head ∨ tail ≤ entry.address := by
    intro entry member
    rcases List.mem_append.mp member with early | late
    · have bounds := entering.mem_bounds early
      omega
    · have bounds := leaving.mem_bounds late
      omega
  refine ⟨entering.append (body.row.append leaving), ?_, ?_, ?_, ?_, ?_, ?_⟩
  · intro entry member
    rcases parts entry member with inner | control
    · exact body.sound entry inner
    · exact (controls entry control).1
  · intro entry member target goes
    rcases parts entry member with inner | control
    · simp only [List.map_append, List.mem_append]
      rcases body.lands entry inner target goes with ends | listed | none
      · rcases leaving.start_mem with nothing | next
        · exact .inl (ends.trans nothing)
        · exact .inr (.inl (.inr (.inr (ends ▸ next))))
      · exact .inr (.inl (.inr (.inl listed)))
      · cases none
    · exact .inr (.inr ((controls entry control).2.2.2 target goes))
  · intro entry member encloses
    rcases parts entry member with inner | control
    · obtain ⟨last, inBody, rest⟩ := body.delimited entry inner encloses
      exact ⟨last, among last inBody, rest⟩
    · rw [(controls entry control).2.1] at encloses
      cases encloses
  · intro region hosts entry member target goes
    rcases parts region hosts with inner | control
    · rcases parts entry member with inside | control
      · exact body.crossing region inner entry inside target goes
      · have place := outside entry control
        have avoided := avoids target ((controls entry control).2.2.2 target goes)
        refine ⟨fun contained => ?_, fun contained => ?_⟩
        · have bounds := body.contains_bounds inner contained
          omega
        · have bounds := body.contains_bounds inner contained
          omega
    · simp [Entry.Contains, (controls region control).2.1]
  · intro entry member repeats
    rcases parts entry member with inner | control
    · obtain ⟨single, inBody, rest⟩ := body.tested entry inner repeats
      exact ⟨single, among single inBody, rest⟩
    · rw [(controls entry control).2.2.1] at repeats
      cases repeats
  · intro entry member repeats other further goes
    rcases parts entry member with inner | control
    · rcases parts other further with inside | control
      · exact body.untargeted entry inner repeats other inside goes
      · have bounds := body.repeat_bounds inner repeats
        have avoided := avoids _ ((controls other control).2.2.2 _ goes)
        omega
    · rw [(controls entry control).2.2.1] at repeats
      cases repeats

theorem widen (fragment : Fragment code [] start entries stop) (exits : List Nat) :
    Fragment code exits start entries stop :=
  { fragment with
    lands := fun entry member target goes => by
      rcases fragment.lands entry member target goes with same | listed | leaves
      · exact .inl same
      · exact .inr (.inl listed)
      · cases leaves }

/-- A fragment whose exits are all its own has none. -/
theorem close (fragment : Fragment code exits start entries stop)
    (own : ∀ exit ∈ exits, exit = stop ∨ exit ∈ entries.map Entry.address) :
    Fragment code [] start entries stop :=
  { fragment with
    lands := fun entry member target goes => by
      rcases fragment.lands entry member target goes with same | listed | leaves
      · exact .inl same
      · exact .inr (.inl listed)
      · rcases own target leaves with same | listed
        · exact .inl same
        · exact .inr (.inl listed) }

theorem subEnd {address next : Nat} (read : code.instruction? address = some (.subEnd, next)) :
    Fragment code [] address [⟨address, .subEnd, next⟩] next :=
  single read trivial rfl rfl fun _ goes => nomatch goes

/-- A body that runs as a call, between the instruction that calls it and its end. -/
theorem enclosed {head tail : Nat} {instruction : Instruction}
    (enter : code.instruction? start = some (instruction, head))
    (encloses : instruction.encloses = true) (once : instruction.repeats = false)
    (sound : Entry.Sound ⟨start, instruction, head⟩) (leaves : instruction.target? = some stop)
    (body : Fragment code [] head entries tail)
    (finish : code.instruction? tail = some (.subEnd, stop)) :
    Fragment code [] start (⟨start, instruction, head⟩ :: (entries ++ [⟨tail, .subEnd, stop⟩]))
      stop := by
  have inner := body.append (subEnd finish) (fun _ none => nomatch none) fun _ none => nomatch none
  have ahead := Code.lt_of_instruction? enter
  have last := Code.lt_of_instruction? finish
  have whole := body.row.le
  -- Nothing inside the region jumps past its end.
  have stays : ∀ entry ∈ entries ++ [⟨tail, .subEnd, stop⟩], ∀ target,
      entry.instruction.target? = some target → head ≤ target ∧ target < stop := by
    intro entry member target goes
    rcases List.mem_append.mp member with inBody | atEnd
    · rcases body.target_bounds inBody goes with near | none
      · omega
      · cases none
    · rw [List.mem_singleton.mp atEnd] at goes
      cases goes
  refine ⟨.cons enter inner.row, ?_, ?_, ?_, ?_, ?_, ?_⟩
  · exact List.forall_mem_cons.mpr ⟨sound, inner.sound⟩
  · intro entry member target goes
    rw [List.map_cons, List.mem_cons]
    rcases List.mem_cons.mp member with same | inside
    · rw [same, leaves] at goes
      exact .inl (Option.some.inj goes).symm
    · rcases inner.lands entry inside target goes with ends | listed | none
      · exact .inl ends
      · exact .inr (.inl (.inr listed))
      · cases none
  · intro entry member encloses
    rcases List.mem_cons.mp member with same | inside
    · refine ⟨⟨tail, .subEnd, stop⟩, by simp, rfl, ?_, ?_⟩
      · rw [same]
        exact whole
      · rw [same]
        exact leaves
    · obtain ⟨last, among, rest⟩ := inner.delimited entry inside encloses
      exact ⟨last, List.mem_cons_of_mem _ among, rest⟩
  · intro region hosts entry member target goes
    rcases List.mem_cons.mp hosts with same | hosted
    · have contains : ∀ address, region.Contains address ↔ head ≤ address ∧ address < stop := by
        intro address
        simp [same, Entry.Contains, encloses, leaves]
      rw [contains, contains]
      rcases List.mem_cons.mp member with same | inside
      · rw [same, leaves] at goes
        cases goes
        rw [same]
        dsimp only
        omega
      · have place := inner.row.mem_bounds inside
        have bounds := stays entry inside target goes
        omega
    · rcases List.mem_cons.mp member with same | inside
      · rw [same, leaves] at goes
        cases goes
        refine ⟨fun inside => ?_, fun inside => ?_⟩
        · have bounds := inner.contains_bounds hosted inside
          rw [same] at bounds
          dsimp only at bounds
          omega
        · have bounds := inner.contains_bounds hosted inside
          omega
      · exact inner.crossing region hosted entry inside target goes
  · intro entry member repeats
    rcases List.mem_cons.mp member with same | inside
    · rw [same, once] at repeats
      cases repeats
    · obtain ⟨single, among, rest⟩ := inner.tested entry inside repeats
      exact ⟨single, List.mem_cons_of_mem _ among, rest⟩
  · intro entry member repeats other among goes
    rcases List.mem_cons.mp member with same | inside
    · rw [same, once] at repeats
      cases repeats
    · have bounds := inner.repeat_bounds inside repeats
      rcases List.mem_cons.mp among with same | further
      · rw [same, leaves] at goes
        cases goes
        omega
      · exact inner.untargeted entry inside repeats other further goes

/-- A repeat with its test. -/
theorem repetition {quantifier : Quantifier} {test : ByteTest}
    (valid : quantifier.Valid)
    (read : code.instruction? start =
      some (.repetition quantifier.greed quantifier.least quantifier.most, middle))
    (single : code.instruction? middle = some (.test test, stop)) :
    Fragment code [] start
      [⟨start, .repetition quantifier.greed quantifier.least quantifier.most, middle⟩,
        ⟨middle, .test test, stop⟩] stop where
  row := .cons read (.single single)
  sound := by simpa [Entry.Sound] using valid
  lands := by simp [Instruction.target?]
  delimited := by simp [Instruction.encloses]
  crossing := by simp [Instruction.target?]
  tested := by simp [Instruction.repeats]
  untargeted := by simp [Instruction.target?]

end Fragment

end ByteRegex
