import LuaHost.Failure.Wording
import Mathlib
/-!
Templates filled in. A template is read from the left, from each opening brace to the next closing one. If one
stays open, the template stands for itself; otherwise it is in one way a sequence of literals and placeholders, and
its text is theirs, one after the other. What is put for a placeholder is not read again. A name without an entry
stands for nothing, but for those names that every record answers to.
-/

namespace LuaHost

namespace Template

/-- How a piece is written. -/
def Piece.source : Piece → List Char
  | .literal text => text
  | .placeholder name => '{' :: name ++ ['}']

/-- Placeholders between literals, with all braces where they have to be. -/
inductive Alternating : List Piece → Prop
  | last {text : List Char} (plain : '{' ∉ text) : Alternating [.literal text]
  | cons {text name : List Char} {rest : List Piece} (plain : '{' ∉ text) (closed : '}' ∉ name)
      (others : Alternating rest) : Alternating (.literal text :: .placeholder name :: rest)

/-- A template consists of these pieces. -/
structure Consists (template : List Char) (pieces : List Piece) : Prop where
  alternating : Alternating pieces
  written : pieces.flatMap Piece.source = template

/-- A brace that is opened stays open, when what is between braces is passed over. -/
inductive Unclosed : List Char → Prop
  | here {text inside : List Char} (plain : '{' ∉ text) (stays : '}' ∉ inside) :
      Unclosed (text ++ '{' :: inside)
  | later {text name rest : List Char} (plain : '{' ∉ text) (closed : '}' ∉ name)
      (later : Unclosed rest) : Unclosed (text ++ '{' :: (name ++ '}' :: rest))

variable {text name inside rest template : List Char} {pieces : List Piece}

/-! ### One step of reading -/

theorem passed_before {c : Char} (before : c ∉ text) (after : List Char) :
    (text ++ c :: after).takeWhile (· ≠ c) = text ∧ (text ++ c :: after).dropWhile (· ≠ c) = c :: after := by
  have passed : ∀ d ∈ text, decide (d ≠ c) = true := by
    intro d mem
    simpa using ne_of_mem_of_not_mem mem before
  rw [List.takeWhile_append_of_pos passed, List.dropWhile_append_of_pos passed]
  simp

theorem passed_all {c : Char} (absent : c ∉ text) :
    text.takeWhile (· ≠ c) = text ∧ text.dropWhile (· ≠ c) = [] := by
  have passed : ∀ d ∈ text, decide (d ≠ c) = true := by
    intro d mem
    simpa using ne_of_mem_of_not_mem mem absent
  exact ⟨List.takeWhile_eq_self_iff.mpr passed, List.dropWhile_eq_nil_iff.mpr passed⟩

/-- The reading of a template, without what it takes to see that it ends. -/
theorem pieces?_eq (template : List Char) : pieces? template =
    match template.dropWhile (· ≠ '{') with
    | [] => some [.literal (template.takeWhile (· ≠ '{'))]
    | _ :: inside =>
      match inside.dropWhile (· ≠ '}') with
      | [] => none
      | _ :: rest => (pieces? rest).map fun ps =>
          .literal (template.takeWhile (· ≠ '{')) :: .placeholder (inside.takeWhile (· ≠ '}')) :: ps := by
  rw [pieces?]
  split
  · next ended => rw [ended]
  · next inside opened =>
      rw [opened]
      dsimp only
      split
      · next stays => rw [stays]
      · next rest closed => rw [closed]

theorem pieces?_literal (plain : '{' ∉ text) : pieces? text = some [.literal text] := by
  obtain ⟨taken, dropped⟩ := passed_all plain
  rw [pieces?_eq, dropped, taken]

theorem pieces?_open (plain : '{' ∉ text) (stays : '}' ∉ inside) : pieces? (text ++ '{' :: inside) = none := by
  rw [pieces?_eq, (passed_before plain inside).2]
  dsimp only
  rw [(passed_all stays).2]

theorem pieces?_placeholder (plain : '{' ∉ text) (closed : '}' ∉ name) (rest : List Char) :
    pieces? (text ++ '{' :: (name ++ '}' :: rest)) =
      (pieces? rest).map fun ps => .literal text :: .placeholder name :: ps := by
  obtain ⟨taken, dropped⟩ := passed_before plain (name ++ '}' :: rest)
  obtain ⟨inside, after⟩ := passed_before closed rest
  rw [pieces?_eq, dropped, taken]
  dsimp only
  rw [inside, after]

/-! ### All of a template -/

/-- The pieces of a template are the only ones that it can be read as. -/
theorem Consists.read (consists : Consists template pieces) : pieces? template = some pieces := by
  obtain ⟨alternating, rfl⟩ := consists
  induction alternating with
  | last plain => simpa [Piece.source] using pieces?_literal plain
  | @cons text name rest plain closed _ ih =>
      have written : (Piece.literal text :: .placeholder name :: rest).flatMap Piece.source =
          text ++ '{' :: (name ++ '}' :: rest.flatMap Piece.source) := by
        simp [Piece.source]
      rw [written, pieces?_placeholder plain closed, ih]
      rfl

theorem Unclosed.unread (unclosed : Unclosed template) : pieces? template = none := by
  induction unclosed with
  | here plain stays => exact pieces?_open plain stays
  | later plain closed _ ih => rw [pieces?_placeholder plain closed, ih, Option.map_none]

/-- A template has pieces, unless a brace stays open in it. -/
theorem unclosed_or_consists (template : List Char) :
    Unclosed template ∨ ∃ pieces, Consists template pieces := by
  induction length : template.length using Nat.strong_induction_on generalizing template with
  | _ n ih =>
      by_cases opened : '{' ∈ template
      · obtain ⟨text, inside, rfl, plain⟩ := List.eq_append_cons_of_mem opened
        by_cases closes : '}' ∈ inside
        · obtain ⟨name, rest, rfl, closed⟩ := List.eq_append_cons_of_mem closes
          have shorter : rest.length < n := by
            simp only [List.length_append, List.length_cons] at length
            omega
          rcases ih _ shorter rest rfl with later | ⟨pieces, alternating, rfl⟩
          · exact .inl (.later plain closed later)
          · exact .inr ⟨_, .cons plain closed alternating, by simp [Piece.source]⟩
        · exact .inl (.here plain closes)
      · exact .inr ⟨[.literal template], .last opened, by simp [Piece.source]⟩

theorem Consists.closed (consists : Consists template pieces) : ¬ Unclosed template :=
  fun unclosed => nomatch consists.read.symm.trans unclosed.unread

theorem Consists.unique {other : List Piece} (consists : Consists template pieces)
    (another : Consists template other) : other = pieces :=
  Option.some.inj (another.read.symm.trans consists.read)

end Template

variable {context : Context}

/-- What is put for a name: the text of its entry, or else its tag; nothing for what is undefined or missing, but
for a name that every record answers to the text of that. -/
def Context.textFor (context : Context) (name : String) : String :=
  match context.find? (·.1 == name) with
  | some (_, .undefined) => ""
  | some (_, d) => d.text?.getD d.tag
  | none => ((inheritedNames.find? (·.1 == name)).map (·.2)).getD ""

/-- The text of a piece. -/
def Template.Piece.filled (context : Context) : Template.Piece → String
  | .literal text => String.ofList text
  | .placeholder name => context.textFor (String.ofList name)

theorem contextTexts_eq (context : Context) : contextTexts context = context.map entryPair := by
  induction context with
  | nil => simp [contextTexts]
  | cons entry rest ih => rw [contextTexts, ih, List.map_cons]

theorem entryPair_name (entry : String × Detail) : (entryPair entry).1 = entry.1 := by
  obtain ⟨name, d⟩ := entry
  cases d <;> simp [entryPair]

theorem entryText_eq (context : Context) (name : String) :
    entryText (contextTexts context) name = context.textFor name := by
  have found : (contextTexts context).find? (·.1 == name) = (context.find? (·.1 == name)).map entryPair := by
    rw [contextTexts_eq, List.find?_map]
    congr 2
    funext entry
    exact congrArg (· == name) (entryPair_name entry)
  rw [entryText, Context.textFor, found]
  cases context.find? (·.1 == name) with
  | none => rfl
  | some entry =>
      obtain ⟨_, d⟩ := entry
      cases d <;> simp [entryPair]

theorem inheritedNames_shown : ∀ inherited ∈ inheritedNames, inherited.2 ≠ "" := by decide

/-- A name that has no entry stands for nothing, unless every record answers to it. -/
theorem Context.textFor_missing {name : String} (missing : ∀ entry ∈ context, entry.1 ≠ name) :
    context.textFor name = "" ↔ ∀ inherited ∈ inheritedNames, inherited.1 ≠ name := by
  have none : context.find? (·.1 == name) = none := by
    rw [List.find?_eq_none]
    intro entry mem
    simpa using missing entry mem
  rw [Context.textFor, none]
  constructor
  · intro empty inherited mem same
    cases found : inheritedNames.find? (·.1 == name) with
    | none => exact absurd (by simpa using same) (List.find?_eq_none.mp found inherited mem)
    | some entry =>
        rw [found] at empty
        exact inheritedNames_shown entry (List.mem_of_find?_eq_some found) empty
  · intro other
    have unknown : inheritedNames.find? (·.1 == name) = Option.none := by
      rw [List.find?_eq_none]
      intro inherited mem
      simpa using other inherited mem
    rw [unknown]
    rfl

theorem renderMessage_unclosed {template : String} (unclosed : Template.Unclosed template.toList)
    (context : Context) : renderMessage template context = template := by
  rw [renderMessage, Template.render, unclosed.unread]

theorem renderMessage_consists {template : String} {pieces : List Template.Piece}
    (consists : Template.Consists template.toList pieces) (context : Context) :
    renderMessage template context = String.join (pieces.map (Template.Piece.filled context)) := by
  rw [renderMessage, Template.render, consists.read]
  refine congrArg String.join (List.map_congr_left fun piece _ => ?_)
  cases piece with
  | literal text => rfl
  | placeholder name => exact entryText_eq context (String.ofList name)

/-- The template that most failures have. -/
theorem consists_message : Template.Consists "\x7bmessage\x7d".toList
    [.literal [], .placeholder "message".toList, .literal []] :=
  ⟨.cons (by decide) (by decide) (.last (by decide)), rfl⟩

/-- A template with a brace that stays open is left as it is. Any other is in one way a sequence of literals and
placeholders, and is filled in piece by piece; so a message that is put into a template comes out as it is. A name
that has no entry stands for nothing, unless it is one that every record answers to. -/
theorem renderMessage_fills (template : String) (context : Context) :
    (Template.Unclosed template.toList ∧ renderMessage template context = template ∨
      ¬ Template.Unclosed template.toList ∧ ∃ pieces, Template.Consists template.toList pieces ∧
        (∀ other, Template.Consists template.toList other → other = pieces) ∧
        renderMessage template context = String.join (pieces.map (Template.Piece.filled context))) ∧
    (∀ name, (∀ entry ∈ context, entry.1 ≠ name) →
      (context.textFor name = "" ↔ ∀ inherited ∈ inheritedNames, inherited.1 ≠ name)) ∧
    ∀ message, renderMessage "\x7bmessage\x7d" [("message", .string message)] = message := by
  refine ⟨?_, fun name => Context.textFor_missing, fun message => ?_⟩
  · rcases Template.unclosed_or_consists template.toList with unclosed | ⟨pieces, consists⟩
    · exact .inl ⟨unclosed, renderMessage_unclosed unclosed context⟩
    · exact .inr ⟨consists.closed, pieces, consists, fun _ => consists.unique,
        renderMessage_consists consists context⟩
  · rw [renderMessage_consists consists_message]
    simp [Template.Piece.filled, Context.textFor, Detail.text?]

/-- A name that every record answers to has a text that nobody gave. -/
theorem constructor_filled : Context.textFor [] "constructor" ≠ "" := by
  have missing : ∀ entry ∈ ([] : Context), entry.1 ≠ "constructor" := by simp
  intro nothing
  have unlike := ((renderMessage_fills "\x7bconstructor\x7d" []).2.1 "constructor" missing).mp nothing
  exact unlike _ List.mem_cons_self rfl

end LuaHost
