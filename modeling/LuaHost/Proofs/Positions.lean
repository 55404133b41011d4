import LuaHost.Text.Location
import Mathlib
/-!
Which position is read off a message that a position was put in front of. Nothing that ends before the mark of that
position can become a mark by what follows, so the name comes back with its line exactly if there is no mark in the
name itself; otherwise what is read is the position that the name starts with, whatever the message is.
-/

namespace LuaHost.Text.Location

variable {digits text rest after : List Char} {c : Char} {line : Nat}

/-- A text starts with a position mark, and with the digits of its line. -/
def Starts (text digits : List Char) : Prop :=
  digits ≠ [] ∧ (∀ d ∈ digits, isDigit d = true) ∧ ∃ after, text = ':' :: (digits ++ ':' :: ' ' :: after)

/-- There is a position mark in a text. -/
def Marked (text : String) : Prop :=
  ∃ before after digits, text.toList = before ++ after ∧ Starts after digits

/-! ### One mark -/

theorem digits_passed (digit : ∀ d ∈ digits, isDigit d = true) (plain : isDigit c = false) (after : List Char) :
    (digits ++ c :: after).takeWhile isDigit = digits ∧ (digits ++ c :: after).dropWhile isDigit = c :: after := by
  rw [List.takeWhile_append_of_pos digit, List.dropWhile_append_of_pos digit,
    List.takeWhile_cons_of_neg (by simp [plain]), List.dropWhile_cons_of_neg (by simp [plain]), List.append_nil]
  exact ⟨rfl, rfl⟩

theorem mark?_of_starts (starts : Starts text digits) : mark? text = some (number digits) := by
  obtain ⟨nonempty, digit, after, rfl⟩ := starts
  obtain ⟨taken, dropped⟩ := digits_passed digit (c := ':') (by decide) (' ' :: after)
  rw [mark?, taken, dropped]
  cases digits with
  | nil => exact absurd rfl nonempty
  | cons d ds => rfl

theorem starts_of_mark? (found : mark? text = some line) : ∃ digits, Starts text digits ∧ number digits = line := by
  rw [mark?.eq_def] at found
  split at found
  · next rest =>
      dsimp only at found
      split at found
      · next d ds after taken dropped =>
          cases found
          refine ⟨_, ⟨by simp [taken], fun d mem => List.mem_takeWhile_imp mem, after, ?_⟩, rfl⟩
          rw [← dropped, List.takeWhile_append_dropWhile]
      · cases found
  · cases found

theorem mark?_eq_none : mark? text = none ↔ ∀ digits, ¬ Starts text digits := by
  constructor
  · intro absent digits starts
    exact nomatch absent.symm.trans (mark?_of_starts starts)
  · intro absent
    cases found : mark? text with
    | none => rfl
    | some line =>
        obtain ⟨digits, starts, -⟩ := starts_of_mark? found
        exact absurd starts (absent digits)

theorem passed_append (plain : isDigit c = false) (rest after : List Char) :
    (rest ++ c :: after).takeWhile isDigit = rest.takeWhile isDigit ∧
      (rest ++ c :: after).dropWhile isDigit = rest.dropWhile isDigit ++ c :: after := by
  induction rest with
  | nil => simp [plain]
  | cons d rest ih =>
      cases digit : isDigit d with
      | true => simp [digit, ih]
      | false => simp [digit]

/-- What a mark follows is no part of one, and neither becomes a mark by it nor stops being one. -/
theorem mark?_append (nonempty : text ≠ []) (starts : Starts after digits) : mark? (text ++ after) = mark? text := by
  obtain ⟨first, digit, rest, rfl⟩ := starts
  obtain ⟨d, ds, rfl⟩ := List.exists_cons_of_ne_nil first
  obtain ⟨c, text, rfl⟩ := List.exists_cons_of_ne_nil nonempty
  have apart : d ≠ ' ' := by
    rintro rfl
    exact absurd (digit ' ' List.mem_cons_self) (by decide)
  by_cases colon : c = ':'
  · obtain ⟨taken, dropped⟩ := passed_append (c := ':') (by decide) text (d :: ds ++ ':' :: ' ' :: rest)
    rw [colon, List.cons_append, mark?, mark?, taken, dropped]
    -- The colon and the blank of a mark are both before what follows: it starts with a colon and a digit.
    rcases text.dropWhile isDigit with _ | ⟨x, _ | ⟨y, left⟩⟩
    · cases text.takeWhile isDigit <;> simp [apart]
    · cases text.takeWhile isDigit <;> simp
    · cases text.takeWhile isDigit with
      | nil => rfl
      | cons => by_cases both : x = ':' ∧ y = ' ' <;> simp_all
  · simp [mark?, colon]

/-! ### The first mark -/

/-- No position is read off a text exactly if there is no mark in it. -/
theorem split?_eq_none :
    split? text = none ↔ ∀ before after digits, text = before ++ after → ¬ Starts after digits := by
  induction text with
  | nil =>
      refine ⟨fun _ before after digits same starts => ?_, fun _ => rfl⟩
      obtain ⟨-, -, rest, rfl⟩ := starts
      simp at same
  | cons c text ih =>
      have parts : split? (c :: text) = none ↔ mark? (c :: text) = none ∧ split? text = none := by
        rw [split?]
        cases mark? (c :: text) <;> simp
      rw [parts, mark?_eq_none, ih]
      constructor
      · rintro ⟨here, later⟩ before after digits same
        cases before with
        | nil =>
            rw [List.nil_append] at same
            exact same ▸ here digits
        | cons d before => exact later before after digits (List.cons.inj same).2
      · intro absent
        exact ⟨fun digits => absent [] _ digits rfl,
          fun before after digits same => absent (c :: before) after digits (congrArg (c :: ·) same)⟩

theorem split?_shorter {name : List Char} (found : split? text = some (name, line)) : name.length < text.length := by
  induction text generalizing name with
  | nil => cases found
  | cons c text ih =>
      rw [split?] at found
      split at found
      · cases found
        simp
      · obtain ⟨⟨before, _⟩, earlier, same⟩ := Option.map_eq_some_iff.mp found
        cases same
        simpa using ih earlier

/-- The position that a text is put behind is what is read, unless there is one in front of it already. -/
theorem split?_append (starts : Starts after digits) (text : List Char) :
    split? (text ++ after) = some ((split? text).getD (text, number digits)) := by
  induction text with
  | nil =>
      have here := mark?_of_starts starts
      obtain ⟨-, -, rest, rfl⟩ := starts
      simp only [List.nil_append, split?, here]
      rfl
  | cons c text ih =>
      have same := mark?_append (List.cons_ne_nil c text) starts
      rw [List.cons_append] at same ⊢
      rw [split?, split?, same, ih]
      cases mark? (c :: text) with
      | some line => rfl
      | none => cases split? text <;> rfl

/-! ### Positions in a chunk -/

/-- Where a message is taken to be from that starts with a line of a chunk. -/
def told (chunkName : String) (line : Nat) : Location := (ofMessage? chunkName).getD ⟨chunkName, line⟩

/-- How the position of a message is written in front of it. -/
def written (chunkName : String) (line : Nat) : String := chunkName ++ ":" ++ toString line ++ ": "

theorem starts_written (line : Nat) (message : List Char) :
    Starts (':' :: (Nat.toDigits 10 line ++ ':' :: ' ' :: message)) (Nat.toDigits 10 line) := by
  exact ⟨Nat.toDigits_ne_nil, fun d mem => Nat.isDigit_of_mem_toDigits (by decide) (by decide) mem, message, rfl⟩

theorem ofMessage?_written (chunkName : String) (line : Nat) (message : String) :
    ofMessage? (written chunkName line ++ message) = some (told chunkName line) := by
  have text : (written chunkName line ++ message).toList =
      chunkName.toList ++ ':' :: (Nat.toDigits 10 line ++ ':' :: ' ' :: message.toList) := by
    simp [written]
  have same : number (Nat.toDigits 10 line) = line := Nat.ofDigitChars_toDigits (by decide) (by decide)
  rw [ofMessage?, text, split?_append (starts_written line message.toList), same, told, ofMessage?]
  cases split? chunkName.toList <;> simp

theorem ofMessage?_eq_none {message : String} : ofMessage? message = none ↔ ¬ Marked message := by
  rw [ofMessage?, Option.map_eq_none_iff, split?_eq_none]
  simp only [Marked, not_exists, not_and]

/-- A position is told as it is exactly if there is no mark in the name of its chunk. -/
theorem told_eq_iff (chunkName : String) (line : Nat) :
    told chunkName line = ⟨chunkName, line⟩ ↔ ¬ Marked chunkName := by
  rw [← ofMessage?_eq_none, told, ofMessage?]
  cases found : split? chunkName.toList with
  | none => simp
  | some position =>
      obtain ⟨name, other⟩ := position
      have shorter := split?_shorter found
      have differs : String.ofList name ≠ chunkName := by
        rintro rfl
        simp at shorter
      simp [differs]

end LuaHost.Text.Location
