import LuaHost.Session.Config
import Mathlib
/-!
Tables that are made of rows. When no key occurs twice and no value is nil, a table has its entries in the
order of the rows, and its length is that of the rows if their keys are the indices from one on.
-/

namespace LuaHost.Guest

/-- Rows that a new table keeps as they are. -/
structure Keyed (rows : List (Value × Value)) : Prop where
  keys : ∀ r ∈ rows, r.1.key? ≠ none
  distinct : (rows.map (·.1.key?)).Nodup
  present : ∀ r ∈ rows, r.2.isNil = false

theorem Store.newTable_table (store : Store) (t : Table) :
    (store.newTable t).1.table store.tables.size = { t with serial := store.objects + 1 } := by
  simp [Store.table, Store.newTable, Array.getD_eq_getD_getElem?]

namespace Table

/-- A table has just these rows, and was given them in this order. -/
structure Holds (t : Table) (rows : List (Value × Value)) : Prop where
  order : t.order.toList = rows.map (·.1.key?)
  found : ∀ i (r : Value × Value) k, rows[i]? = some r → r.1.key? = some k →
    t.index[k]? = some ⟨r.1.normalized, r.1, r.2, i⟩
  absent : ∀ k, some k ∉ rows.map (·.1.key?) → t.index[k]? = none
  size : t.size = rows.length

variable {t : Table} {rows : List (Value × Value)}

theorem holds_empty : Holds {} [] where
  order := rfl
  found := fun _ _ _ here => nomatch here
  absent := fun _ _ => Std.HashMap.getElem?_empty
  size := Std.HashMap.size_empty

/-- A key that is new to a table is added at the end. -/
theorem Holds.insert (holds : t.Holds rows) {key value : Value} {k : Key} (searched : key.key? = some k)
    (new : some k ∉ rows.map (·.1.key?)) :
    (t.insert k key value).Holds (rows ++ [(key, value)]) := by
  have absent := holds.absent k new
  have places : t.order.size = rows.length := by
    rw [← Array.length_toList, holds.order, List.length_map]
  have inserted : t.insert k key value =
      { t with
        index := t.index.insert k ⟨key.normalized, key, value, t.order.size⟩
        order := t.order.push (some k)
        removed := {} } := by
    simp only [Table.insert, absent]
  rw [inserted]
  refine ⟨?_, ?_, ?_, ?_⟩
  · simp [holds.order, searched]
  · intro i r k' here searched'
    rw [Std.HashMap.getElem?_insert, places]
    rcases Nat.lt_trichotomy i rows.length with earlier | rfl | later
    · rw [List.getElem?_append_left earlier] at here
      have unlike : k ≠ k' := by
        rintro rfl
        exact new (List.mem_map.mpr ⟨r, List.mem_of_getElem? here, searched'⟩)
      rw [if_neg (by simpa using unlike)]
      exact holds.found i r k' here searched'
    · rw [List.getElem?_append_right (Nat.le_refl _), Nat.sub_self] at here
      obtain rfl := Option.some.inj here
      obtain rfl := Option.some.inj (searched.symm.trans searched')
      rw [if_pos (beq_self_eq_true k)]
    · rw [List.getElem?_eq_none (by simpa using Nat.succ_le_of_lt later)] at here
      exact nomatch here
  · intro k' missing
    rw [List.map_append, List.mem_append, not_or] at missing
    have unlike : k ≠ k' := by
      rintro rfl
      exact missing.2 (by simp [searched])
    rw [Std.HashMap.getElem?_insert, if_neg (by simpa using unlike)]
    exact holds.absent k' missing.1
  · have outside : k ∉ t.index := by
      rw [Std.HashMap.mem_iff_isSome_getElem?, absent]
      exact Bool.false_ne_true
    rw [Table.size, Std.HashMap.size_insert, if_neg outside, List.length_append]
    exact congrArg (· + 1) holds.size

/-- Rows are added one after the other. -/
theorem Holds.fold (holds : t.Holds rows) {rest : List (Value × Value)} (keyed : Keyed (rows ++ rest)) :
    (rest.foldl (fun t (key, value) => t.set key value) t).Holds (rows ++ rest) := by
  induction rest generalizing t rows with
  | nil => simpa using holds
  | cons r rest ih =>
      obtain ⟨key, value⟩ := r
      have mem : (key, value) ∈ rows ++ (key, value) :: rest :=
        List.mem_append_right _ List.mem_cons_self
      obtain ⟨k, searched⟩ := Option.ne_none_iff_exists'.mp (keyed.keys _ mem)
      have new : some k ∉ rows.map (·.1.key?) := by
        intro old
        have distinct := keyed.distinct
        rw [List.map_append, List.map_cons, searched] at distinct
        exact (List.disjoint_of_nodup_append distinct) old List.mem_cons_self
      have set : t.set key value = t.insert k key value := by
        simp only [Table.set, searched, setKey, keyed.present _ mem, Bool.false_eq_true, if_false]
      have split : rows ++ (key, value) :: rest = (rows ++ [(key, value)]) ++ rest := by simp
      simp only [List.foldl_cons, set]
      rw [split]
      exact ih (holds.insert searched new) (split ▸ keyed)

theorem holds_of_keyed (keyed : Keyed rows) : (Config.tableOf rows).Holds rows :=
  holds_empty.fold keyed

/-- The number of a table has nothing to do with its entries. -/
theorem Holds.numbered (holds : t.Holds rows) (serial : Nat) : { t with serial }.Holds rows :=
  ⟨holds.order, holds.found, holds.absent, holds.size⟩

/-- The traversal meets the rows in their order. -/
theorem Holds.entries (holds : t.Holds rows) (keyed : Keyed rows) :
    List.Forall₂ (fun e r => e.key = r.1.normalized ∧ e.given = r.1 ∧ e.value = r.2) t.entries rows := by
  have traversed : t.entries = rows.filterMap fun r => r.1.key?.bind fun k => t.index[k]? := by
    rw [Table.entries, holds.order, List.filterMap_map]
    congr 1
    funext r
    cases searched : r.1.key? <;> simp [searched]
  have each : ∀ r ∈ rows, ∃ e : Entry, (r.1.key?.bind fun k => t.index[k]?) = some e ∧
      e.key = r.1.normalized ∧ e.given = r.1 ∧ e.value = r.2 := by
    intro r mem
    obtain ⟨i, here⟩ := List.mem_iff_getElem?.mp mem
    obtain ⟨k, searched⟩ := Option.ne_none_iff_exists'.mp (keyed.keys r mem)
    exact ⟨⟨r.1.normalized, r.1, r.2, i⟩, by simp [searched, holds.found i r k here searched],
      rfl, rfl, rfl⟩
  rw [traversed]
  clear traversed holds keyed
  induction rows with
  | nil => exact .nil
  | cons r rest ih =>
      obtain ⟨e, found, same⟩ := each r List.mem_cons_self
      rw [List.filterMap_cons, found]
      exact .cons same (ih fun r' mem => each r' (List.mem_cons_of_mem r mem))

/-! ### Sequences -/

/-- Halving finds the last index that is present, if all before it are and none after it. -/
theorem bisect_eq {n : Nat} (present : ∀ i, t.hasIndex i = true ↔ 1 ≤ i ∧ i ≤ n) {fuel low high : Nat}
    (enough : high ≤ fuel + low) (below : low ≤ n) (above : n < high) : t.bisect fuel low high = n := by
  induction fuel generalizing low high with
  | zero => omega
  | succ fuel ih =>
      rw [bisect]
      split
      · next apart =>
          simp only
          split
          · next there =>
              have inside := (present _).mp there
              exact ih (by omega) inside.2 above
          · next missing =>
              have outside : n < (low + high) / 2 := by
                by_contra reached
                exact missing ((present _).mpr ⟨by omega, by omega⟩)
              exact ih (by omega) below outside
      · omega

/-- The rows of a sequence. -/
def sequenceRows (values : List Value) : List (Value × Value) :=
  (values.zipIdx 1).map fun (v, i) => (.int (Int32.ofNat i), v)

theorem sequenceRows_getElem? (values : List Value) (i : Nat) :
    (sequenceRows values)[i]? = (values[i]?).map fun v => (.int (Int32.ofNat (i + 1)), v) := by
  simp only [sequenceRows, List.getElem?_map, List.getElem?_zipIdx, Option.map_map]
  rw [Nat.add_comm]
  rfl

theorem ofNat_inj {i j : Nat} (left : i < 2 ^ 31) (right : j < 2 ^ 31)
    (same : Int32.ofNat i = Int32.ofNat j) : i = j := by
  have same := congrArg Int32.toInt same
  rw [Int32.toInt_ofNat_of_lt left, Int32.toInt_ofNat_of_lt right] at same
  exact Int.ofNat.inj same

variable {values : List Value}

/-- What a sequence has at an index. -/
theorem Holds.getInt (holds : t.Holds (sequenceRows values)) {i : Nat} {v : Value}
    (here : values[i]? = some v) : t.getInt (Int32.ofNat (i + 1)) = v := by
  have found := holds.found i (.int (Int32.ofNat (i + 1)), v) (.int (Int32.ofNat (i + 1)))
    (by rw [sequenceRows_getElem?, here, Option.map_some]) rfl
  simp only [Table.getInt, getKey, found]

theorem Holds.hasIndex (holds : t.Holds (sequenceRows values)) (bound : values.length < 2 ^ 31)
    (present : ∀ v ∈ values, v.isNil = false) (i : Nat) :
    t.hasIndex i = true ↔ 1 ≤ i ∧ i ≤ values.length := by
  rw [Table.hasIndex, Bool.and_eq_true]
  constructor
  · rintro ⟨there, fits⟩
    have small : i < 2 ^ 31 := by
      rw [fitsInt32_iff] at fits
      omega
    by_contra outside
    have absent : t.index[Key.int (Int32.ofNat i)]? = none := by
      refine holds.absent _ fun mem => outside ?_
      obtain ⟨r, mem, searched⟩ := List.mem_map.mp mem
      obtain ⟨j, here⟩ := List.mem_iff_getElem?.mp mem
      rw [sequenceRows_getElem?] at here
      obtain ⟨v, found, rfl⟩ := Option.map_eq_some_iff.mp here
      have inside := (List.getElem?_eq_some_iff.mp found).1
      have same := ofNat_inj (by omega) small (Key.int.inj (Option.some.inj searched))
      omega
    simp [Table.getInt, getKey, absent, Value.isNil] at there
  · rintro ⟨positive, inside⟩
    obtain ⟨j, rfl⟩ : ∃ j, i = j + 1 := ⟨i - 1, by omega⟩
    have here := List.getElem?_eq_getElem (show j < values.length by omega)
    refine ⟨?_, ?_⟩
    · rw [holds.getInt here, present _ (List.mem_of_getElem? here)]
      rfl
    · rw [fitsInt32_iff]
      omega

theorem Holds.length (holds : t.Holds (sequenceRows values)) (bound : values.length < 2 ^ 31)
    (present : ∀ v ∈ values, v.isNil = false) : t.length = values.length := by
  have size : t.size = values.length := by
    rw [holds.size, sequenceRows, List.length_map, List.length_zipIdx]
  have indices := holds.hasIndex bound present
  have beyond : t.hasIndex (values.length + 1) = false := by
    rw [← Bool.not_eq_true, indices]
    omega
  have searched : t.boundFrom 33 0 (values.length + 1) = (0, values.length + 1) := by
    rw [boundFrom, beyond]
    rfl
  rw [Table.length, size, searched]
  exact bisect_eq indices (by omega) (Nat.zero_le _) (Nat.lt_succ_self _)

/-- The items from one to the length are those of the sequence. -/
theorem Holds.items (holds : t.Holds (sequenceRows values)) (bound : values.length < 2 ^ 31)
    (present : ∀ v ∈ values, v.isNil = false) :
    ((List.range' 1 t.length).map fun i => t.getInt (Int32.ofNat i)) = values := by
  rw [holds.length bound present]
  refine List.ext_getElem (by simp) fun i _ inside => ?_
  rw [List.getElem_map, List.getElem_range', Nat.one_mul, Nat.add_comm]
  exact holds.getInt (List.getElem?_eq_getElem inside)

end Table

end LuaHost.Guest
