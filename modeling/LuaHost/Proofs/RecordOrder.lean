import LuaHost.Record
import Mathlib
/-!
The order of the entries of a record. Of the entries of a name the last one counts. Names that are written
as an index come first, by their number, and the others follow in the order in which they were first
added.
-/

namespace LuaHost.Record

variable {α β : Type}

/-! ### Indices -/

theorem isDigit_iff {c : Char} : isDigit c = true ↔ 48 ≤ c.toNat ∧ c.toNat ≤ 57 := by
  rw [isDigit, Bool.and_eq_true, decide_eq_true_iff, decide_eq_true_iff]
  rfl

/-- A digit is what is written for the number that it stands for. -/
theorem digitChar_toNat {c : Char} (digit : isDigit c = true) :
    c.toNat - 48 < 10 ∧ Nat.digitChar (c.toNat - 48) = c := by
  have range := isDigit_iff.mp digit
  have small : c.toNat - 48 < 10 := by omega
  refine ⟨small, Char.toNat_inj.mp ?_⟩
  rw [Nat.toNat_digitChar_of_lt_ten small]
  omega

/-- Digits that do not start with a zero are those of their number, which is positive. -/
theorem toDigits_ofDigitChars {digits : List Char} (digit : ∀ c ∈ digits, isDigit c = true)
    (nonempty : digits ≠ []) (plain : digits.head? ≠ some '0') :
    0 < Nat.ofDigitChars 10 digits 0 ∧ Nat.toDigits 10 (Nat.ofDigitChars 10 digits 0) = digits := by
  induction digits using List.reverseRecOn with
  | nil => exact absurd rfl nonempty
  | append_singleton front c ih =>
      obtain ⟨small, written⟩ := digitChar_toNat (digit c (by simp))
      have number : Nat.ofDigitChars 10 (front ++ [c]) 0 =
          10 * Nat.ofDigitChars 10 front 0 + (c.toNat - 48) := by
        rw [Nat.ofDigitChars_append, Nat.ofDigitChars_cons, Nat.ofDigitChars_nil]
        rfl
      rw [number]
      rcases List.eq_nil_or_concat front with rfl | ⟨_, _, rfl⟩
      · have positive : 0 < c.toNat - 48 := by
          rcases Nat.eq_zero_or_pos (c.toNat - 48) with zero | positive
          · rw [zero] at written
            exact absurd (congrArg some written.symm) plain
          · exact positive
        refine ⟨by simpa using positive, ?_⟩
        rw [Nat.ofDigitChars_nil, Nat.mul_zero, Nat.zero_add, Nat.toDigits_of_lt_base small, written]
        rfl
      · obtain ⟨positive, same⟩ := ih (fun c' mem => digit c' (List.mem_append_left _ mem))
          (by simp) (by simpa using plain)
        refine ⟨by omega, ?_⟩
        rw [← Nat.toDigits_append_toDigits (by decide) positive small, same,
          Nat.toDigits_of_lt_base small, written]

/-- No positive number is written with a zero in front. -/
theorem toDigits_head {n : Nat} (positive : 0 < n) : (Nat.toDigits 10 n).head? ≠ some '0' := by
  induction n using Nat.strongRecOn with
  | ind n ih =>
      rw [Nat.toDigits_eq_if (by decide)]
      split
      · simpa using Nat.ne_of_gt positive
      · have front := ih (n / 10) (by omega) (by omega)
        rwa [List.head?_append_of_ne_nil _ Nat.toDigits_ne_nil]

/-- The names that are indices are the numbers below the limit, as they are written. -/
theorem index?_eq_some {name : String} {i : Nat} :
    index? name = some i ↔ i < indexLimit ∧ name = toString i := by
  have number : name.toList.foldl (fun n c => n * 10 + (c.toNat - '0'.toNat)) 0 =
      Nat.ofDigitChars 10 name.toList 0 := by
    simp only [Nat.ofDigitChars_eq_foldl, Nat.mul_comm]
  simp only [index?, number, Option.ite_none_right_eq_some, Option.some.injEq, Bool.and_eq_true,
    Bool.or_eq_true, decide_eq_true_iff]
  constructor
  · rintro ⟨⟨⟨⟨nonempty, digit⟩, plain⟩, bound⟩, rfl⟩
    refine ⟨bound, ?_⟩
    rw [Nat.toString_eq_repr, Nat.repr_eq_ofList_toDigits, ← String.toList_inj, String.toList_ofList]
    rcases plain with zero | plain
    · rw [eq_of_beq zero]
      rfl
    · refine (toDigits_ofDigitChars (List.all_eq_true.mp digit) ?_ ?_).2.symm
      · simpa using nonempty
      · simpa using plain
  · rintro ⟨bound, rfl⟩
    have digits : (toString i).toList = Nat.toDigits 10 i := by
      rw [Nat.toString_eq_repr, Nat.toList_repr]
    rw [digits, Nat.ofDigitChars_ten_toDigits]
    refine ⟨⟨⟨⟨?_, ?_⟩, ?_⟩, bound⟩, rfl⟩
    · simp
    · refine List.all_eq_true.mpr fun c mem => ?_
      exact Nat.isDigit_of_mem_toDigits (by decide) (by decide) mem
    · rcases Nat.eq_zero_or_pos i with rfl | positive
      · exact .inl rfl
      · exact .inr (by simpa using toDigits_head positive)

/-! ### Adding entries -/

/-- The first place at which a name stands. -/
def firstPlace (entries : List (String × α)) (name : String) : Nat :=
  (entries.map (·.1)).idxOf name

/-- Which of two names comes first in a record with these entries. -/
def Precedes (entries : List (String × α)) (a b : String) : Prop :=
  match index? a, index? b with
  | some i, some j => i < j
  | some _, none => True
  | none, some _ => False
  | none, none => firstPlace entries a < firstPlace entries b

/-- A record of these entries: each name occurs once, with what was given for it last. -/
structure IsOrdered (entries record : List (String × α)) : Prop where
  distinct : (record.map (·.1)).Nodup
  last : ∀ name x, (name, x) ∈ record ↔ entries.reverse.lookup name = some x
  ordered : (record.map (·.1)).Pairwise (Precedes entries)

/-- The entries so far, each name at the place where it was added first. -/
structure Collected (entries done : List (String × α)) : Prop where
  distinct : (done.map (·.1)).Nodup
  last : ∀ name x, (name, x) ∈ done ↔ entries.reverse.lookup name = some x
  ordered : (done.map (·.1)).Pairwise fun a b => firstPlace entries a < firstPlace entries b

variable {entries done : List (String × α)}

/-- Where the last entry of a name counts, no name is lost and none is added. -/
theorem mem_names_of_last (last : ∀ name x, (name, x) ∈ done ↔ entries.reverse.lookup name = some x)
    {name : String} : name ∈ done.map (·.1) ↔ name ∈ entries.map (·.1) := by
  constructor
  · intro mem
    obtain ⟨⟨n, x⟩, kept, rfl⟩ := List.mem_map.mp mem
    obtain ⟨before, after, same, -⟩ := List.lookup_eq_some_iff.mp ((last n x).mp kept)
    refine List.mem_map.mpr ⟨(n, x), List.mem_reverse.mp ?_, rfl⟩
    rw [same]
    exact List.mem_append_right _ List.mem_cons_self
  · intro mem
    obtain ⟨⟨n, y⟩, given, rfl⟩ := List.mem_map.mp mem
    cases found : entries.reverse.lookup n with
    | none =>
        have unlike := List.lookup_eq_none_iff.mp found (n, y) (List.mem_reverse.mpr given)
        simp at unlike
    | some x => exact List.mem_map.mpr ⟨(n, x), (last n x).mpr found, rfl⟩

theorem Collected.mem_names (collected : Collected entries done) {name : String} :
    name ∈ done.map (·.1) ↔ name ∈ entries.map (·.1) :=
  mem_names_of_last collected.last

theorem firstPlace_append {name : String} (mem : name ∈ entries.map (·.1)) (e : String × α) :
    firstPlace (entries ++ [e]) name = firstPlace entries name := by
  rw [firstPlace, List.map_append, List.idxOf_append_of_mem mem]
  rfl

/-- What has been added keeps its order when more is added. -/
theorem Collected.kept (collected : Collected entries done) (e : String × α) :
    (done.map (·.1)).Pairwise fun a b =>
      firstPlace (entries ++ [e]) a < firstPlace (entries ++ [e]) b := by
  refine collected.ordered.imp_of_mem ?_
  intro a b left right earlier
  rwa [firstPlace_append (collected.mem_names.mp left), firstPlace_append (collected.mem_names.mp right)]

theorem lookup_added (entries : List (String × α)) (name : String) (x : α) (n : String) :
    (entries ++ [(name, x)]).reverse.lookup n =
      if n = name then some x else entries.reverse.lookup n := by
  rw [List.reverse_append, List.reverse_singleton, List.singleton_append, List.lookup_cons]
  by_cases same : n = name
  · simp [same]
  · rw [if_neg same, beq_eq_false_iff_ne.mpr same]

theorem Collected.insert (collected : Collected entries done) (name : String) (x : α) :
    Collected (entries ++ [(name, x)]) (insert done name x) := by
  have present : done.any (·.1 == name) = true ↔ name ∈ done.map (·.1) := by simp
  rw [Record.insert]
  split
  · next old =>
      have names : (done.map fun e => if e.1 == name then (name, x) else e).map (·.1) =
          done.map (·.1) := by
        rw [List.map_map]
        refine List.map_congr_left fun e _ => ?_
        by_cases same : e.1 = name
        · simp [same]
        · simp [same]
      refine ⟨names ▸ collected.distinct, ?_, names ▸ collected.kept (name, x)⟩
      intro n y
      rw [lookup_added]
      by_cases same : n = name
      · subst same
        simp only [if_true, List.mem_map, Option.some.injEq]
        constructor
        · rintro ⟨e, -, replaced⟩
          by_cases here : e.1 = n
          · simpa [here] using congrArg Prod.snd replaced
          · simp only [beq_iff_eq, here, if_false] at replaced
            exact absurd (congrArg Prod.fst replaced) here
        · rintro rfl
          obtain ⟨e, mem, here⟩ := List.mem_map.mp (present.mp old)
          exact ⟨e, mem, by simp [here]⟩
      · rw [if_neg same, ← collected.last, List.mem_map]
        constructor
        · rintro ⟨e, mem, replaced⟩
          by_cases here : e.1 = name
          · simp only [here, beq_self_eq_true, if_true] at replaced
            exact absurd (congrArg Prod.fst replaced).symm same
          · simp only [beq_iff_eq, here, if_false] at replaced
            exact replaced ▸ mem
        · intro mem
          exact ⟨(n, y), mem, by simp [same]⟩
  · next new =>
      rw [present] at new
      have unlike : ∀ a ∈ done.map (·.1), a ≠ name := fun a mem same => new (same ▸ mem)
      refine ⟨?_, ?_, ?_⟩
      · rw [List.map_append, List.nodup_append]
        refine ⟨collected.distinct, List.nodup_singleton name, ?_⟩
        intro a mem b last
        rw [List.mem_singleton.mp last]
        exact unlike a mem
      · intro n y
        rw [lookup_added, List.mem_append, List.mem_singleton]
        by_cases same : n = name
        · subst same
          have missing : (n, y) ∉ done := fun mem => new (List.mem_map.mpr ⟨_, mem, rfl⟩)
          simp [missing, eq_comm]
        · simp [same, collected.last]
      · rw [List.map_append, List.pairwise_append]
        refine ⟨collected.kept (name, x), List.pairwise_singleton _ _, ?_⟩
        intro a mem b last
        rw [List.mem_singleton.mp last, firstPlace_append (collected.mem_names.mp mem)]
        have earlier := List.idxOf_lt_length_of_mem (collected.mem_names.mp mem)
        have outside : name ∉ entries.map (·.1) := fun mem => new (collected.mem_names.mpr mem)
        rw [firstPlace, firstPlace, List.map_append, List.idxOf_append_of_notMem outside]
        omega

/-- Entries are added one after the other. -/
theorem collected_fold (entries : List (String × α)) :
    Collected entries (entries.foldl (fun done e => insert done e.1 e.2) []) := by
  induction entries using List.reverseRecOn with
  | nil => exact ⟨List.nodup_nil, by simp, .nil⟩
  | append_singleton front e ih =>
      rw [List.foldl_append, List.foldl_cons, List.foldl_nil]
      exact ih.insert e.1 e.2

/-! ### The order of a record -/

/-- The entries whose names are indices, with these. -/
def indexed (entries : List (String × α)) : List (Nat × String × α) :=
  entries.filterMap fun e => (index? e.1).map fun i => (i, e)

theorem mem_indexed {p : Nat × String × α} :
    p ∈ indexed entries ↔ p.2 ∈ entries ∧ index? p.2.1 = some p.1 := by
  rw [indexed, List.mem_filterMap]
  constructor
  · rintro ⟨e, mem, found⟩
    obtain ⟨i, index, rfl⟩ := Option.map_eq_some_iff.mp found
    exact ⟨mem, index⟩
  · rintro ⟨mem, index⟩
    exact ⟨p.2, mem, by rw [index, Option.map_some]⟩

theorem indexed_entries (entries : List (String × α)) :
    (indexed entries).map (·.2) = entries.filter fun e => (index? e.1).isSome := by
  induction entries with
  | nil => rfl
  | cons e rest ih =>
      simp only [indexed] at ih
      cases found : index? e.1 <;> simp [indexed, found, ih]

def byIndex (a b : Nat × String × α) : Bool := a.1 ≤ b.1

theorem arrange_eq (entries : List (String × α)) :
    arrange entries = ((indexed entries).mergeSort byIndex).map (·.2) ++
      entries.filter fun e => !(index? e.1).isSome := by
  have others : (fun e : String × α => (index? e.1).isNone) = fun e => !(index? e.1).isSome := by
    funext e
    rw [Option.not_isSome]
  rw [arrange, others]
  rfl

theorem arrange_perm (entries : List (String × α)) : (arrange entries).Perm entries := by
  have sorted : (((indexed entries).mergeSort byIndex).map (·.2)).Perm
      (entries.filter fun e => (index? e.1).isSome) := by
    rw [← indexed_entries]
    exact (List.mergeSort_perm _ _).map _
  rw [arrange_eq]
  exact (sorted.append_right _).trans (List.filter_append_perm _ entries)

/-- Indices are sorted by their number, and no two of them are alike. -/
theorem indices_ordered (distinct : (done.map (·.1)).Nodup) :
    ((((indexed done).mergeSort byIndex).map (·.2)).map (·.1)).Pairwise (Precedes entries) := by
  have names : ((indexed done).map (·.2.1)).Nodup := by
    have sub : ((indexed done).map (·.2)).Sublist done := by
      rw [indexed_entries]
      exact List.filter_sublist
    simpa [List.map_map, Function.comp_def] using distinct.sublist (sub.map (·.1))
  have apart := ((List.mergeSort_perm (indexed done) byIndex).map (·.2.1)).nodup_iff.mpr names
  have sorted : ((indexed done).mergeSort byIndex).Pairwise fun a b => byIndex a b = true := by
    refine List.pairwise_mergeSort ?_ ?_ _
    · simp only [byIndex, decide_eq_true_iff]
      omega
    · simp only [byIndex, Bool.or_eq_true, decide_eq_true_iff]
      omega
  rw [List.map_map, List.pairwise_map]
  refine (sorted.and (List.pairwise_map.mp apart)).imp_of_mem ?_
  intro a b left right both
  have left := (mem_indexed.mp ((List.mergeSort_perm _ _).mem_iff.mp left)).2
  have right := (mem_indexed.mp ((List.mergeSort_perm _ _).mem_iff.mp right)).2
  simp only [Precedes, Function.comp, left, right]
  refine Nat.lt_of_le_of_ne (of_decide_eq_true both.1) fun same => both.2 ?_
  rw [(index?_eq_some.mp left).2, (index?_eq_some.mp right).2, same]

theorem ofEntries_isOrdered (entries : List (String × α)) : IsOrdered entries (ofEntries entries) := by
  have collected := collected_fold entries
  generalize kept : entries.foldl (fun done e => insert done e.1 e.2) [] = done at collected
  have made : ofEntries entries = arrange done := by rw [ofEntries, kept]
  rw [made]
  have perm := arrange_perm done
  refine ⟨(perm.map _).nodup_iff.mpr collected.distinct, ?_, ?_⟩
  · intro name x
    rw [← collected.last]
    exact perm.mem_iff
  · rw [arrange_eq, List.map_append, List.pairwise_append]
    have others : ∀ b ∈ (done.filter fun e => !(index? e.1).isSome).map (·.1), index? b = none := by
      intro b mem
      obtain ⟨e, kept, rfl⟩ := List.mem_map.mp mem
      simpa using (List.mem_filter.mp kept).2
    refine ⟨indices_ordered collected.distinct, ?_, ?_⟩
    · have sub := (List.filter_sublist (p := fun e => !(index? e.1).isSome) (l := done)).map (·.1)
      refine (collected.ordered.sublist sub).imp_of_mem ?_
      intro a b left right earlier
      simpa only [Precedes, others a left, others b right] using earlier
    · intro a left b right
      obtain ⟨e, mem, rfl⟩ := List.mem_map.mp left
      obtain ⟨p, sorted, rfl⟩ := List.mem_map.mp mem
      have index := (mem_indexed.mp ((List.mergeSort_perm _ _).mem_iff.mp sorted)).2
      simp only [Precedes, index, others b right]

/-- An entry is found by its name. -/
theorem IsOrdered.find {record : List (String × α)} (ordered : IsOrdered entries record) (name : String) :
    (record.find? (·.1 == name)).map (·.2) = entries.reverse.lookup name := by
  cases found : record.find? (·.1 == name) with
  | some e =>
      obtain ⟨n, x⟩ := e
      have same : n = name := by simpa using List.find?_some found
      rw [← same]
      exact ((ordered.last n x).mp (List.mem_of_find?_eq_some found)).symm
  | none =>
      cases given : entries.reverse.lookup name with
      | none => rfl
      | some x =>
          have absent := List.find?_eq_none.mp found (name, x) ((ordered.last name x).mpr given)
          simp at absent

theorem insert_map (f : α → β) (done : List (String × α)) (name : String) (x : α) :
    insert (done.map (Prod.map id f)) name (f x) = (insert done name x).map (Prod.map id f) := by
  have names : (done.map (Prod.map id f)).any (·.1 == name) = done.any (·.1 == name) := by
    rw [List.any_map]
    rfl
  rw [insert, insert, names]
  split
  · rw [List.map_map, List.map_map]
    refine List.map_congr_left fun e _ => ?_
    by_cases same : e.1 = name
    · simp [same]
    · simp [same]
  · rw [List.map_append]
    rfl

theorem arrange_map (f : α → β) (entries : List (String × α)) :
    arrange (entries.map (Prod.map id f)) = (arrange entries).map (Prod.map id f) := by
  have indices : indexed (entries.map (Prod.map id f)) =
      (indexed entries).map (Prod.map id (Prod.map id f)) := by
    simp only [indexed, List.filterMap_map, List.map_filterMap, Function.comp_def, Option.map_map]
    rfl
  rw [arrange_eq, arrange_eq, indices, List.map_append, List.filter_map, List.map_map,
    ← List.map_mergeSort (s := byIndex) (f := Prod.map id (Prod.map id f))
      (fun (a : Nat × String × α) _ b _ => show byIndex a b = _ from rfl), List.map_map]
  rfl

/-- What is done to the entries of a record does not change their order. -/
theorem ofEntries_map (f : α → β) (entries : List (String × α)) :
    ofEntries (entries.map (Prod.map id f)) = (ofEntries entries).map (Prod.map id f) := by
  have collected : ∀ done : List (String × α),
      (entries.map (Prod.map id f)).foldl (fun done e => insert done e.1 e.2)
          (done.map (Prod.map id f)) =
        (entries.foldl (fun done e => insert done e.1 e.2) done).map (Prod.map id f) := by
    induction entries with
    | nil => exact fun done => rfl
    | cons e rest ih =>
        intro done
        rw [List.map_cons, List.foldl_cons, List.foldl_cons, ← ih]
        rw [← insert_map]
        rfl
  rw [ofEntries, ofEntries, ← arrange_map]
  exact congrArg arrange (collected [])

end LuaHost.Record
