import LuaHost.Decimal.Read
import LuaHost.Proofs.NearestDoubles
import LuaHost.Proofs.Positions
/-!
The position that is read off a message is that of the first position mark in it: the name is everything in front of
the mark, whatever colons and digits there are, and the line is the number that its digits denote. The host is told the
line as a double, so beyond `2 ^ 53` it may be told a neighbour of this number.
-/

namespace LuaHost.Text.Location

variable {text name digits : List Char} {c : Char} {line : Nat}

/-- A text is a name, a position mark with these digits, and a remainder. -/
def Splits (text name digits : List Char) : Prop := ∃ after, text = name ++ after ∧ Starts after digits

/-- A text splits at its first position mark, and this has these digits. -/
structure FirstMark (text name digits : List Char) : Prop where
  splits : Splits text name digits
  shortest : ∀ shorter digits', Splits text shorter digits' → name.length ≤ shorter.length

/-! ### The digits of a mark -/

/-- The number that digits denote by their places. -/
def denoted (digits : List Char) : Nat := Nat.ofDigits 10 (digits.map Decimal.digitValue).reverse

theorem number_eq_denoted (digits : List Char) : number digits = denoted digits := by
  induction digits using List.reverseRecOn with
  | nil => rfl
  | append_singleton digits d ih =>
      have last : number (digits ++ [d]) = 10 * number digits + Decimal.digitValue d := by
        rw [number, number, List.foldl_append]
        rfl
      rw [last, ih, denoted, denoted, List.map_append, List.map_singleton, List.reverse_append, List.reverse_singleton,
        List.singleton_append, Nat.ofDigits_cons, Nat.add_comm]

/-! ### The place of a mark -/

theorem not_splits_nil : ¬ Splits [] name digits := by
  rintro ⟨after, same, -, -, rest, rfl⟩
  simp at same

theorem splits_cons : Splits (c :: text) name digits ↔
    name = [] ∧ Starts (c :: text) digits ∨ ∃ name', name = c :: name' ∧ Splits text name' digits := by
  constructor
  · rintro ⟨after, same, starts⟩
    cases name with
    | nil => exact .inl ⟨rfl, same ▸ starts⟩
    | cons d name =>
        obtain ⟨rfl, tail⟩ := List.cons.inj same
        exact .inr ⟨name, rfl, after, tail, starts⟩
  · rintro (⟨rfl, starts⟩ | ⟨name', rfl, after, same, starts⟩)
    · exact ⟨_, rfl, starts⟩
    · exact ⟨after, congrArg (c :: ·) same, starts⟩

/-- Where a mark starts there is nothing in front of the first one. -/
theorem firstMark_here (starts : Starts (c :: text) digits) {digits' : List Char} :
    FirstMark (c :: text) name digits' ↔ name = [] ∧ Starts (c :: text) digits' := by
  constructor
  · rintro ⟨splits, shortest⟩
    have none := shortest [] digits (splits_cons.mpr (.inl ⟨rfl, starts⟩))
    obtain rfl := List.length_eq_zero_iff.mp (Nat.le_zero.mp none)
    rcases splits_cons.mp splits with here | ⟨name', absurd, -⟩
    · exact here
    · cases absurd
  · rintro ⟨rfl, here⟩
    exact ⟨splits_cons.mpr (.inl ⟨rfl, here⟩), fun _ _ _ => Nat.zero_le _⟩

/-- Where none starts the first one is that of the rest. -/
theorem firstMark_later (absent : ∀ digits, ¬ Starts (c :: text) digits) :
    FirstMark (c :: text) name digits ↔ ∃ name', name = c :: name' ∧ FirstMark text name' digits := by
  have later {name digits : List Char} (splits : Splits (c :: text) name digits) :
      ∃ name', name = c :: name' ∧ Splits text name' digits :=
    (splits_cons.mp splits).resolve_left fun here => absent digits here.2
  constructor
  · rintro ⟨splits, shortest⟩
    obtain ⟨name', rfl, parts⟩ := later splits
    refine ⟨name', rfl, parts, fun shorter digits' other => ?_⟩
    exact Nat.le_of_succ_le_succ (shortest (c :: shorter) digits' (splits_cons.mpr (.inr ⟨shorter, rfl, other⟩)))
  · rintro ⟨name', rfl, splits, shortest⟩
    refine ⟨splits_cons.mpr (.inr ⟨name', rfl, splits⟩), fun shorter digits' other => ?_⟩
    obtain ⟨shorter, rfl, parts⟩ := later other
    exact Nat.succ_le_succ (shortest shorter digits' parts)

/-- The scan tries each character anew, so what it finds is the first mark. -/
theorem split?_eq_some :
    split? text = some (name, line) ↔ ∃ digits, FirstMark text name digits ∧ line = denoted digits := by
  induction text generalizing name with
  | nil =>
      constructor
      · intro found
        cases found
      · rintro ⟨digits, first, -⟩
        exact absurd first.splits not_splits_nil
  | cons c text ih =>
      rw [split?]
      cases here : mark? (c :: text) with
      | some found =>
          obtain ⟨digits, starts, rfl⟩ := starts_of_mark? here
          simp only [firstMark_here starts, Option.some.injEq, Prod.mk.injEq]
          constructor
          · rintro ⟨rfl, rfl⟩
            exact ⟨digits, ⟨rfl, starts⟩, number_eq_denoted digits⟩
          · rintro ⟨digits', ⟨rfl, starts'⟩, rfl⟩
            rw [← number_eq_denoted]
            exact ⟨rfl, Option.some.inj (here.symm.trans (mark?_of_starts starts'))⟩
      | none =>
          simp only [firstMark_later (mark?_eq_none.mp here), Option.map_eq_some_iff]
          constructor
          · rintro ⟨⟨name', line'⟩, found, same⟩
            cases same
            obtain ⟨digits, first, value⟩ := ih.mp found
            exact ⟨digits, ⟨name', rfl, first⟩, value⟩
          · rintro ⟨digits, ⟨name', rfl, first⟩, value⟩
            exact ⟨(name', line), ih.mpr ⟨digits, first, value⟩, rfl⟩

theorem ofMessage?_eq_some {message : String} {l : Location} : ofMessage? message = some l ↔
    ∃ digits, FirstMark message.toList l.chunkName.toList digits ∧ l.line = denoted digits := by
  obtain ⟨chunkName, line⟩ := l
  have listed : ofMessage? message = some ⟨chunkName, line⟩ ↔
      split? message.toList = some (chunkName.toList, line) := by
    rw [ofMessage?, Option.map_eq_some_iff]
    constructor
    · rintro ⟨⟨name, line'⟩, found, same⟩
      cases same
      rw [found, String.toList_ofList]
    · intro found
      exact ⟨_, found, by simp⟩
  rw [listed, split?_eq_some]

/-- A run of digits that fails late is part of the name. -/
example : ofMessage? ":12:3: x" = some ⟨":12", 3⟩ := by decide

/-- No position is read off a message exactly if there is no position mark in it. Otherwise it is read at the first
one: the name is what is in front of it, the line is the number that its digits denote, and the host is told the double
that this number is read as. -/
theorem first_mark_read (message : String) :
    (ofMessage? message = none ↔ ¬ Marked message) ∧
    ∀ l, ofMessage? message = some l ↔ ∃ digits, FirstMark message.toList l.chunkName.toList digits ∧
      l.line = denoted digits ∧ Decimal.ReadAs (denoted digits) l.hostLine := by
  refine ⟨ofMessage?_eq_none, fun l => ?_⟩
  rw [ofMessage?_eq_some]
  constructor
  · rintro ⟨digits, first, line⟩
    refine ⟨digits, first, line, ?_⟩
    rw [← line]
    exact Decimal.readAs_ofNat l.line
  · rintro ⟨digits, first, line, -⟩
    exact ⟨digits, first, line⟩

/-- The digits of a mark can denote a number that is no double, and then the host is told another one. -/
theorem rounded_line : ∃ l digits b, ofMessage? "a:9007199254740993: x" = some l ∧
    FirstMark "a:9007199254740993: x".toList l.chunkName.toList digits ∧ Decimal.shape l.hostLine = .finite b ∧
    b.value ≠ denoted digits := by
  have found : ofMessage? "a:9007199254740993: x" = some ⟨"a", 9007199254740993⟩ := by decide
  obtain ⟨digits, first, line⟩ := ofMessage?_eq_some.mp found
  refine ⟨_, digits, ⟨false, 2 ^ 52, 1, true⟩, found, first, by decide +kernel, ?_⟩
  rw [← line, Decimal.Binary.value]
  norm_num

end LuaHost.Text.Location
