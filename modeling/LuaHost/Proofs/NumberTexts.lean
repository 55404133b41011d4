import LuaHost.Proofs.Classification
import LuaHost.Proofs.DecimalTexts
import LuaHost.Proofs.ShortestDigits
/-!
Numbers as the host and as guests write them. The host's text of a finite double tells it from all others, and looks
like an integer exactly if the double is whole and below ten to the twenty-first. Guests round a float to fourteen
digits before they write it. So their text is the one that is put out, or the one that failures tell, for those
floats only that rounding leaves as they are, and on different sides of that limit.
-/

namespace LuaHost.Decimal

namespace Binary
variable {b b' : Binary}

theorem value_eq_zero (b : Binary) : b.value = 0 ↔ b.mantissa = 0 := by
  have unit : (2 : ℚ) ^ b.exponent ≠ 0 := by positivity
  rw [value, mul_eq_zero, or_iff_left unit]
  exact_mod_cast Iff.rfl

theorem zero_text (zero : b.mantissa = 0) : b.shortest.text = "0" := by
  rw [shortest, if_pos zero]
  rfl

/-- The shortest digits of a double that is not zero, with the number that they stand for. -/
theorem Proper.shortest_normal (proper : b.Proper) (positive : 0 < b.mantissa) :
    b.shortest.Normal ∧ b.Nearest b.shortest.value := by
  obtain ⟨count, n, same, nearest, -⟩ := proper.shortest_grid positive
  obtain ⟨normal, value⟩ := Digits.ofGrid_normal (nearest.count_pos positive) (b.ratio.decimalLength - (n + 1 : Nat))
  rw [same, value]
  exact ⟨normal, nearest⟩

/-- The number in the text of a double is one that is read as the double, or it is zero as the double is. -/
theorem Proper.number_in_text (proper : b.Proper) :
    (b.mantissa = 0 ∧ numberIn b.shortest.text.toList = 0) ∨
      (0 < b.mantissa ∧ 0 < numberIn b.shortest.text.toList ∧ b.Nearest (numberIn b.shortest.text.toList)) := by
  rcases Nat.eq_zero_or_pos b.mantissa with zero | positive
  · refine .inl ⟨zero, ?_⟩
    have digit : numberIn (['0'] ++ []) = _ := numberIn_whole (zeros_plain 1) (.inl rfl)
    have none : Nat.ofDigitChars 10 ['0'] 0 = 0 := rfl
    rw [zero_text zero]
    simpa [none] using digit
  · obtain ⟨normal, nearest⟩ := proper.shortest_normal positive
    rw [normal.form.number normal]
    exact .inr ⟨positive, nearest.pos positive, nearest⟩

/-- Different doubles have different texts. -/
theorem Proper.text_inj (proper : b.Proper) (proper' : b'.Proper) (same : b.shortest.text = b'.shortest.text) :
    b.value = b'.value := by
  rcases proper.number_in_text with ⟨zero, number⟩ | ⟨-, positive, nearest⟩
  · rcases proper'.number_in_text with ⟨zero', -⟩ | ⟨-, positive', -⟩
    · rw [b.value_eq_zero.mpr zero, b'.value_eq_zero.mpr zero']
    · rw [← same, number] at positive'
      exact absurd positive' (lt_irrefl _)
  · rcases proper'.number_in_text with ⟨-, number'⟩ | ⟨-, -, nearest'⟩
    · rw [same, number'] at positive
      exact absurd positive (lt_irrefl _)
    · rw [← same] at nearest'
      exact proper.nearest_unique proper' nearest nearest'

/-- The text of a double starts with a digit and does not end with a point and a zero. -/
theorem Proper.text_ends (proper : b.Proper) :
    (∃ c rest, b.shortest.text.toList = c :: rest ∧ c.isDigit = true) ∧ ¬ ['.', '0'] <:+ b.shortest.text.toList := by
  rcases Nat.eq_zero_or_pos b.mantissa with zero | positive
  · rw [zero_text zero]
    exact ⟨⟨'0', [], rfl, rfl⟩, by decide⟩
  · obtain ⟨normal, -⟩ := proper.shortest_normal positive
    exact ⟨normal.form.head normal, normal.form.last normal⟩

/-- The shortest digits are whole exactly if the double is. -/
theorem Proper.shortest_whole_iff (proper : b.Proper) (positive : 0 < b.mantissa) :
    (∃ k : Nat, b.shortest.value = k) ↔ b.Whole := by
  constructor
  · rintro ⟨k, same⟩
    have nearest := (proper.shortest_normal positive).2
    rw [same] at nearest
    exact nearest.whole
  · intro whole
    obtain ⟨count, place, same, nearest⟩ := proper.shortest_whole positive whole
    refine ⟨count * 10 ^ place, ?_⟩
    rw [same, (Digits.ofGrid_normal (nearest.count_pos positive) place).2]
    push_cast
    rfl

/-- The shortest digits are below ten to the twenty-first exactly if the double is. -/
theorem Proper.shortest_below_iff (proper : b.Proper) (positive : 0 < b.mantissa) :
    b.shortest.value < 10 ^ 21 ↔ b.value < 10 ^ 21 := by
  by_cases edge : b.value = 10 ^ 21
  · rw [edge, proper.shortest_eq tenTo21_proper (edge.trans tenTo21_value.symm), tenTo21_shortest]
    norm_num [Digits.value, numberOf]
  · exact proper.below_iff (proper.shortest_normal positive).2 edge

/-- The text of a double looks like an integer exactly if it is whole and not too large. -/
theorem Proper.text_plain (proper : b.Proper) :
    (∀ c ∈ b.shortest.text.toList, (c.isDigit || c == '-') = true) ↔ b.Whole ∧ b.value < 10 ^ 21 := by
  rcases Nat.eq_zero_or_pos b.mantissa with zero | positive
  · have whole : b.Whole := ⟨0, by simpa using b.value_eq_zero.mpr zero⟩
    rw [zero_text zero, b.value_eq_zero.mpr zero]
    exact ⟨fun _ => ⟨whole, by norm_num⟩, fun _ => by simp⟩
  · obtain ⟨normal, -⟩ := proper.shortest_normal positive
    rw [normal.form.plain_iff normal, ← normal.whole_iff, ← normal.below_iff 21, proper.shortest_whole_iff positive,
      ← proper.shortest_below_iff positive]
    exact Iff.rfl

/-! ### Signs -/

/-- A double is written with a minus. -/
def minus (b : Binary) : Bool := b.negative && b.mantissa != 0

/-- The value of a double with its sign. -/
def signed (b : Binary) : ℚ := if b.minus then -b.value else b.value

/-- The text of a double. -/
def text (b : Binary) : String := if b.minus then "-" ++ b.shortest.text else b.shortest.text

theorem minus_pos (minus : b.minus = true) : b.negative = true ∧ 0 < b.value := by
  rw [Binary.minus, Bool.and_eq_true, bne_iff_ne] at minus
  exact ⟨minus.1, lt_of_le_of_ne b.value_nonneg fun zero => minus.2 (b.value_eq_zero.mp zero.symm)⟩

theorem signed_eq_iff : b.signed = b'.signed ↔ b.minus = b'.minus ∧ b.value = b'.value := by
  have above := b.value_nonneg
  have above' := b'.value_nonneg
  rw [signed, signed]
  cases minus : b.minus <;> cases minus' : b'.minus
  · simp
  · have larger := (minus_pos minus').2
    simp only [Bool.false_eq_true, if_false, if_true, false_and, iff_false]
    linarith
  · have larger := (minus_pos minus).2
    simp only [Bool.false_eq_true, Bool.true_eq_false, if_false, if_true, false_and, iff_false]
    linarith
  · simp

/-- The text of a double starts with a digit, perhaps after a minus. -/
theorem Proper.text_head (proper : b.Proper) : ∃ c rest, c.isDigit = true ∧
    (b.text.toList = c :: rest ∧ b.minus = false ∨ b.text.toList = '-' :: c :: rest ∧ b.minus = true) := by
  obtain ⟨⟨c, rest, split, digit⟩, -⟩ := proper.text_ends
  refine ⟨c, rest, digit, ?_⟩
  rw [text]
  cases b.minus
  · exact .inl ⟨split, rfl⟩
  · refine .inr ⟨?_, rfl⟩
    rw [if_pos rfl, String.toList_append, split]
    rfl

theorem Proper.text_eq_iff (proper : b.Proper) (proper' : b'.Proper) : b.text = b'.text ↔ b.signed = b'.signed := by
  rw [signed_eq_iff]
  constructor
  · intro same
    have signs : b.minus = b'.minus := by
      obtain ⟨c, rest, digit, head⟩ := proper.text_head
      obtain ⟨c', rest', digit', head'⟩ := proper'.text_head
      rw [same] at head
      rcases head with ⟨head, minus⟩ | ⟨head, minus⟩ <;> rcases head' with ⟨head', minus'⟩ | ⟨head', minus'⟩
      · rw [minus, minus']
      · rw [head, List.cons.injEq] at head'
        rw [head'.1] at digit
        cases digit
      · rw [head, List.cons.injEq] at head'
        rw [← head'.1] at digit'
        cases digit'
      · rw [minus, minus']
    refine ⟨signs, proper.text_inj proper' ?_⟩
    rw [text, text, ← signs] at same
    split at same
    · exact (String.append_right_inj _).mp same
    · exact same
  · rintro ⟨signs, same⟩
    rw [text, text, signs, proper.shortest_eq proper' same]

theorem Proper.text_last (proper : b.Proper) : ¬ ['.', '0'] <:+ b.text.toList := by
  obtain ⟨-, last⟩ := proper.text_ends
  rw [text]
  split
  · rw [String.toList_append]
    rintro zero
    rcases List.suffix_cons_iff.mp zero with all | rest
    · cases all
    · exact last rest
  · exact last

theorem Proper.text_all (proper : b.Proper) :
    (b.text.all fun c => c.isDigit || c == '-') = true ↔ b.Whole ∧ b.value < 10 ^ 21 := by
  rw [String.all_bool_eq, List.all_eq_true, ← proper.text_plain, text]
  split
  · rw [String.toList_append]
    exact List.forall_mem_cons.trans (and_iff_right rfl)
  · exact Iff.rfl

end Binary

/-! ### Floats -/

variable {x y : Float} {b : Binary}

theorem hostText_finite (finite : shape x = .finite b) : hostText x = b.text := by
  rw [hostText, finite]
  rfl

/-- The words for what is no number start with a letter, perhaps after a minus. -/
theorem hostText_word (other : ∀ b, shape x ≠ .finite b) :
    ∃ c rest, c.isDigit = false ∧ c ≠ '-' ∧
      ((hostText x).toList = c :: rest ∨ (hostText x).toList = '-' :: c :: rest) := by
  rw [hostText]
  cases found : shape x with
  | nan => exact ⟨'N', ['a', 'N'], rfl, by decide, .inl rfl⟩
  | infinite negative =>
      refine ⟨'I', ['n', 'f', 'i', 'n', 'i', 't', 'y'], rfl, by decide, ?_⟩
      cases negative
      · exact .inl rfl
      · exact .inr rfl
  | finite b => exact absurd found (other b)

theorem hostText_ne_word (finite : shape x = .finite b) (other : ∀ b, shape y ≠ .finite b) :
    hostText x ≠ hostText y := by
  obtain ⟨c, rest, letter, unsigned, word⟩ := hostText_word other
  obtain ⟨digit, rest', isDigit, number⟩ := (shape_proper finite).text_head
  intro same
  rw [← same, hostText_finite finite] at word
  rcases number with ⟨number, -⟩ | ⟨number, -⟩ <;> rcases word with word | word <;>
    rw [number, List.cons.injEq] at word
  · rw [word.1, letter] at isDigit
    cases isDigit
  · rw [word.1] at isDigit
    cases isDigit
  · exact unsigned word.1.symm
  · rw [(List.cons.inj word.2).1, letter] at isDigit
    cases isDigit

/-- Two doubles are the same number. Both zeros are. -/
def SameNumber (x y : Float) : Prop :=
  ∃ b b' : Binary, shape x = .finite b ∧ shape y = .finite b' ∧ b.signed = b'.signed

/-- Numbers have the same text only if they are the same. -/
theorem hostText_eq_iff (finite : shape x = .finite b) : hostText x = hostText y ↔ SameNumber x y := by
  have proper := shape_proper finite
  constructor
  · intro same
    cases found : shape y with
    | finite b' =>
        rw [hostText_finite finite, hostText_finite found] at same
        exact ⟨b, b', finite, found, (proper.text_eq_iff (shape_proper found)).mp same⟩
    | nan | infinite => exact absurd same (hostText_ne_word finite (by simp [found]))
  · rintro ⟨b₁, b', finite', found, same⟩
    obtain rfl : b = b₁ := Shape.finite.inj (finite.symm.trans finite')
    rw [hostText_finite finite, hostText_finite found]
    exact (proper.text_eq_iff (shape_proper found)).mpr same

theorem hostText_last (x : Float) : ¬ ['.', '0'] <:+ (hostText x).toList := by
  cases found : shape x with
  | finite b =>
      rw [hostText_finite found]
      exact (shape_proper found).text_last
  | nan =>
      rw [hostText, found]
      decide
  | infinite negative =>
      rw [hostText, found]
      cases negative <;> decide

/-- Texts that are perhaps marked with a point and a zero are the same only if both are marked or none is. -/
theorem marked_eq_iff (p q : Bool) :
    (hostText x ++ if p then ".0" else "") = (hostText y ++ if q then ".0" else "") ↔
      hostText x = hostText y ∧ p = q := by
  have marked {x y : Float} (same : hostText x ++ ".0" = hostText y) : False := by
    refine hostText_last y ⟨(hostText x).toList, ?_⟩
    rw [← same, String.toList_append]
    rfl
  cases p <;> cases q
  · simp
  · simp only [Bool.false_eq_true, if_false, if_true, String.append_empty, and_false, iff_false]
    exact fun same => marked same.symm
  · simp only [Bool.true_eq_false, Bool.false_eq_true, if_false, if_true, String.append_empty, and_false, iff_false]
    exact marked
  · simp

theorem guestText_eq (x : Float) : guestText x = hostText (roundSignificant x guestPrecision) ++
    if (hostText (roundSignificant x guestPrecision)).all fun c => c.isDigit || c == '-' then ".0" else "" := by
  rw [guestText]
  split <;> simp

theorem floatOutput_finite (finite : shape x = .finite b) :
    ∃ p : Bool, (p = true ↔ b.Whole) ∧ Datum.floatOutput x = hostText x ++ if p then ".0" else "" := by
  refine ⟨decide (b.mantissa * Nat.pow 2 b.exponent.toNat % Nat.pow 2 (-b.exponent).toNat = 0), ?_, ?_⟩
  · rw [decide_eq_true_eq, b.whole_iff]
  · rw [Datum.floatOutput, finite]
    simp only [decide_eq_true_eq]
    split <;> simp

/-- Guests keep all of a number: it is the one that is rounded to their digits. -/
def Kept (x : Float) : Prop := SameNumber x (roundSignificant x guestPrecision)

/-- The sum of a tenth and two tenths is a double that guests do not keep. -/
example : hostText 0.30000000000000004 = "0.30000000000000004" ∧
    hostText (roundSignificant 0.30000000000000004 guestPrecision) = "0.3" := by
  decide +kernel

/-- Guests mark a number that they keep if it is whole and not too large. -/
theorem Kept.marked (kept : Kept x) (finite : shape x = .finite b) :
    ((hostText (roundSignificant x guestPrecision)).all fun c => c.isDigit || c == '-') = true ↔
      b.Whole ∧ b.value < 10 ^ 21 := by
  rw [← (hostText_eq_iff finite).mpr kept, hostText_finite finite, (shape_proper finite).text_all]

theorem floatOutput_eq_guestText_iff (finite : shape x = .finite b) :
    Datum.floatOutput x = guestText x ↔ Kept x ∧ (b.Whole → b.value < 10 ^ 21) := by
  obtain ⟨p, whole, output⟩ := floatOutput_finite finite
  rw [output, guestText_eq, marked_eq_iff, hostText_eq_iff finite, ← Kept]
  refine and_congr_right fun kept => ?_
  rw [Bool.eq_iff_iff, whole, kept.marked finite]
  exact ⟨fun same isWhole => (same.mp isWhole).2, fun below => ⟨fun isWhole => ⟨isWhole, below isWhole⟩, And.left⟩⟩

theorem hostText_eq_guestText_iff (finite : shape x = .finite b) :
    hostText x = guestText x ↔ Kept x ∧ ¬ (b.Whole ∧ b.value < 10 ^ 21) := by
  have plain : hostText x = hostText x ++ if false then ".0" else "" := by simp
  rw [plain, guestText_eq, marked_eq_iff, hostText_eq_iff finite, ← Kept]
  refine and_congr_right fun kept => ?_
  rw [← kept.marked finite]
  simp

end LuaHost.Decimal

namespace LuaHost

namespace Guest

/-- Guests write a value in this way, unless a metatable has another one for it. -/
def Value.Writes (v : Value) (text : String) : Prop :=
  ∀ s : Store, s.metafield v Event.toString = .nil → Evaluates s (Library.run .tostring [v]) [ofText text]

/-- A number of the guest, and what it is to the host. -/
inductive Value.IsNumber : Value → Datum → Prop
  | int (n : Int32) : IsNumber (.int n) (.int n.toInt)
  | float (x : Float) : IsNumber (.float x) (.float x)

theorem Value.IsNumber.writes {v : Value} {d : Datum} (number : v.IsNumber d) : v.Writes (Numeral.text v) := by
  intro s plain
  have program : Library.run .tostring [v] = Act.tostring v fun text => .done [.string text] := rfl
  rw [program]
  unfold Act.tostring
  refine .query ?_
  beta_reduce
  rw [plain]
  cases number <;> exact .done _

end Guest

namespace Config
variable {σ : Type} {c : Config σ}

/-- Guest code raises a value, and no guest code takes it. -/
inductive Raises (c : Config σ) (v : Guest.Value) : Prop
  | intro {session : Nat} {traceback : Option Guest.Bytes} (control : c.control = .guest session)
      (quiet : c.world.standing.Quiet session)
      (raised : ((c.world.modifyMachine session (·.run portion)).machine session).signal =
        some (.failed .raised v traceback)) : Raises c v

/-- The operation that the guest runs for ends with a failure, which nothing on the way there takes. -/
def FailsWith (c : Config σ) (f : Failure) : Prop :=
  ∃ entry purpose passing k T w, c.stack = .guest entry purpose :: (passing ++ .perform k :: T) ∧
    (∀ p ∈ passing, p.IsPassing) ∧ step^[passing.length + 1] c = ⟨w, .outcome (.err f), .perform k :: T⟩

/-- A number that is raised comes to the host with a new failure, which tells it. -/
theorem Raises.number {v : Guest.Value} {d : Datum} (raises : c.Raises v) (reachable : Reachable c)
    (number : v.IsNumber d) :
    ∃ f, c.FailsWith f ∧ f.fault.id = "LUA-R001" ∧ f.message = World.errorObjectMessage v d := by
  obtain @⟨session, traceback, control, quiet, raised⟩ := raises
  obtain ⟨entry, purpose, passing, k, T, rfl, waits, -, passes⟩ := guest_waits reachable.proper control
  obtain ⟨w, f, read, stepped⟩ := failed_read control waits raised quiet
  obtain ⟨w', passed⟩ := passing_steps (f := f) (T := .perform k :: T)
    ((w.failCall entry.session f).1.restore entry) passes
  have fault : f.fault = .runtime .raised [("message", .string (World.errorObjectMessage v d))] none
      (traceback.map Text.decode) (some d) none := by
    have told := congrArg (·.2.fault) read.symm
    cases number <;> exact told
  refine ⟨f, ⟨entry, purpose, passing, k, T, w', waits, passes, ?_⟩, ?_, ?_⟩
  · rw [Function.iterate_succ_apply, stepped, passed]
  · rw [fault]
    rfl
  · rw [Failure.message, fault]
    exact Failure.runtime_message (by decide) _ _ _ _ _

end Config

open Decimal Guest in
/-- Integers are put out, and told by failures, as guests write them. For a float this is so only if guests keep all
of it; even then they write a whole number below ten to the twenty-first with a point and a zero, and others without:
what is put out has a point and a zero for larger ones too, and failures never have them. -/
theorem numbers_printed {σ : Type} (w : World σ) (session : Nat) :
    (∀ n : Int32, (Value.int n).Writes (Numeral.text (.int n)) ∧
      (w.receive session (.int n)).2.output = Numeral.text (.int n) ∧
      ∀ c : Config σ, Config.Reachable c → c.Raises (.int n) →
        ∃ f, c.FailsWith f ∧ f.fault.id = "LUA-R001" ∧ f.message = Numeral.text (.int n)) ∧
    ∀ (x : Float) (b : Binary), shape x = .finite b →
      (Value.float x).Writes (Numeral.text (.float x)) ∧
      ((w.receive session (.float x)).2.output = Numeral.text (.float x) ↔ Kept x ∧ (b.Whole → b.value < 10 ^ 21)) ∧
      ∀ c : Config σ, Config.Reachable c → c.Raises (.float x) →
        ∃ f, c.FailsWith f ∧ f.fault.id = "LUA-R001" ∧
          (f.message = Numeral.text (.float x) ↔ Kept x ∧ ¬ (b.Whole ∧ b.value < 10 ^ 21)) := by
  refine ⟨fun n => ⟨(Value.IsNumber.int n).writes, rfl, ?_⟩,
    fun x b finite => ⟨(Value.IsNumber.float x).writes, ?_, ?_⟩⟩
  · intro c reachable raises
    exact raises.number reachable (.int n)
  · exact floatOutput_eq_guestText_iff finite
  · intro c reachable raises
    obtain ⟨f, fails, code, message⟩ := raises.number reachable (.float x)
    refine ⟨f, fails, code, ?_⟩
    rw [message]
    exact hostText_eq_guestText_iff finite

namespace Config

/-- A guest is about to fail with a float. -/
def failingWith (x : Float) : Config Unit :=
  step^[9] (start { directory := default, memory := () } (.perform
    (.init { libraries := .only [.base], callbacks := { onLog := fun _ _ memory => (memory, none) } }) fun
      | .ok (some s) _ => Client.inTurn [.callByName s ["error"] [.value (.float x)]]
      | _ => .throw (.value .undefined)))

/-- The float that a guest raises in its next portion, if that is what it does. -/
def raisedFloat? (session : Nat) (c : Config Unit) : Option Float :=
  match ((c.world.modifyMachine session (·.run portion)).machine session).signal with
  | some (.failed .raised (.float x) _) => some x
  | _ => none

set_option maxRecDepth 8000 in
theorem failingWith_views (x : Float) : ((failingWith x).control, raisedFloat? 0 (failingWith x),
      ((failingWith x).world.callback 0 (·.onError)).isSome) = (.guest 0, some x, false) := by
  cbv

/-- Every float is raised in some run. -/
theorem failingWith_raises (x : Float) : Reachable (failingWith x) ∧ (failingWith x).Raises (.float x) := by
  have seen := failingWith_views x
  simp only [Prod.mk.injEq] at seen
  obtain ⟨control, raised, silent⟩ := seen
  refine ⟨⟨_, default, (), run_steps _ _⟩, ?_⟩
  rw [raisedFloat?] at raised
  split at raised
  · next y traceback signal =>
      cases raised
      exact .intro control (World.quiet_of_silent (by simpa using silent)) signal
  · cases raised

open Decimal Guest in
/-- One is put out as guests write it, with a point and a zero, but the failure that it is raised with has neither. -/
theorem one_printed : ((failingWith 1.0).world.receive 0 (.float 1.0)).2.output = Numeral.text (.float 1.0) ∧
    ∃ f, (failingWith 1.0).FailsWith f ∧ f.message ≠ Numeral.text (.float 1.0) := by
  have finite : shape 1.0 = .finite ⟨false, 2 ^ 52, -52, true⟩ := by decide +kernel
  have rounded : shape (roundSignificant 1.0 guestPrecision) = .finite ⟨false, 2 ^ 52, -52, true⟩ := by
    decide +kernel
  have one : (⟨false, 2 ^ 52, -52, true⟩ : Binary).value = 1 := by
    norm_num [Binary.value]
  have below : (⟨false, 2 ^ 52, -52, true⟩ : Binary).value < 10 ^ 21 := by
    rw [one]
    norm_num
  obtain ⟨-, output, told⟩ := (numbers_printed (failingWith 1.0).world 0).2 1.0 _ finite
  obtain ⟨reachable, raises⟩ := failingWith_raises 1.0
  obtain ⟨f, fails, -, message⟩ := told _ reachable raises
  refine ⟨output.mpr ⟨⟨_, _, finite, rounded, rfl⟩, fun _ => below⟩, f, fails, fun same => ?_⟩
  exact (message.mp same).2 ⟨⟨1, by rw [one]; norm_num⟩, below⟩

end Config

end LuaHost
