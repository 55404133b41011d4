import LuaHost.Session.Config
import Mathlib
/-!
Tables as maps that keep their rows in the order in which the keys were added. The order is an array
with gaps beside a hash map; `Ordered` says how the two fit together, and under it each write is the one on
plain lists of rows. So a table that was built of rows has what these rows come to when they are put into a
list one after the other, however often a key was given, removed and given again.
-/

namespace LuaHost.Guest

/-! ### Rows -/

namespace Rows

/-- Puts a value under a key: a key that is there keeps its place, nil removes it, and a new key is added at the
end as tables store it. Two keys are the same if tables search for them alike. -/
def put (rows : List (Value × Value)) (key value : Value) : List (Value × Value) :=
  if value.isNil then rows.filter fun r => r.1.key? ≠ key.key?
  else if rows.any fun r => r.1.key? = key.key? then
    rows.map fun r => if r.1.key? = key.key? then (r.1, value) else r
  else rows ++ [(key.normalized, value)]

/-- What rows come to when they are put one after the other. -/
def folded (rows : List (Value × Value)) : List (Value × Value) :=
  rows.foldl (fun done r => put done r.1 r.2) []

end Rows

/-- A key is found as what a table stores for it. -/
theorem Value.key?_normalized {key : Value} (valid : key.key? ≠ none) : key.normalized.key? = key.key? := by
  cases key with
  | float x =>
      cases whole : integerOfFloat? x with
      | none => simp only [normalized, whole]
      | some n =>
          cases number : x.isNaN with
          | true => exact absurd (by rw [Value.key?, if_pos number]) valid
          | false => simp only [normalized, Value.key?, whole, number, Bool.false_eq_true, if_false]
  | nil | bool | int | string | table | closure | builtin | host | userdata | light | thread => rfl

namespace Table

/-- The keys are where their entries say, and stored as they are searched for. -/
structure Ordered (t : Table) : Prop where
  places : ∀ k i, t.order[i]? = some (some k) ↔ ∃ e : Entry, t.index[k]? = some e ∧ e.place = i
  keys : ∀ k (e : Entry), t.index[k]? = some e → e.key.key? = some k

variable {t : Table} {k : Key}

/-- The row at a place of the order, if there is a key. -/
def rowAt (index : Std.HashMap Key Entry) : Option Key → Option (Value × Value)
  | some k => (index[k]?).map fun e => (e.key, e.value)
  | none => none

theorem toList_eq (t : Table) : t.toList = t.order.toList.filterMap (rowAt t.index) := by
  rw [toList, entries, List.map_filterMap]
  congr 1
  funext place
  cases place <;> rfl

theorem ordered_empty : Ordered {} where
  places := by
    intro k i
    simp
  keys := by
    intro k e found
    simp at found

/-- The row of a key is where its entry says. -/
theorem Ordered.mem (ordered : t.Ordered) {e : Entry} (found : t.index[k]? = some e) :
    t.order[e.place]? = some (some k) :=
  (ordered.places k e.place).mpr ⟨e, found, rfl⟩

/-- A key that is not found has no place. -/
theorem Ordered.not_mem (ordered : t.Ordered) (missing : t.index[k]? = none) :
    some k ∉ t.order.toList := by
  intro mem
  obtain ⟨i, here⟩ := List.mem_iff_getElem?.mp mem
  rw [Array.getElem?_toList] at here
  obtain ⟨e, found, -⟩ := (ordered.places k i).mp here
  rw [missing] at found
  cases found

/-- Only the row of a key is found under it. -/
theorem Ordered.rowAt_key (ordered : t.Ordered) {place : Option Key} {r : Value × Value}
    (here : rowAt t.index place = some r) : r.1.key? = place := by
  cases place with
  | none => cases here
  | some k =>
      obtain ⟨e, found, rfl⟩ := Option.map_eq_some_iff.mp here
      exact ordered.keys k e found

/-! ### Removing a key -/

/-- Values at one place of a list that are mapped alike make no difference. -/
theorem filterMap_set {α β : Type} {f : α → Option β} {l : List α} {i : Nat} {a b : α}
    (here : l[i]? = some a) (same : f b = f a) : (l.set i b).filterMap f = l.filterMap f := by
  induction l generalizing i with
  | nil => cases here
  | cons x l ih =>
      cases i with
      | zero =>
          obtain rfl := Option.some.inj here
          rw [List.set_cons_zero, List.filterMap_cons, List.filterMap_cons, same]
      | succ i =>
          rw [List.set_cons_succ, List.filterMap_cons, List.filterMap_cons, ih here]

theorem rowAt_erase (index : Std.HashMap Key Entry) (k : Key) (place : Option Key) :
    rowAt (index.erase k) place = if place = some k then none else rowAt index place := by
  cases place with
  | none => rfl
  | some k' =>
      simp only [rowAt, Std.HashMap.getElem?_erase, beq_iff_eq, Option.some.injEq, eq_comm (a := k')]
      split <;> rfl

theorem Ordered.toList_remove (ordered : t.Ordered) (k : Key) :
    (t.remove k).toList = t.toList.filter fun r => r.1.key? ≠ some k := by
  cases found : t.index[k]? with
  | none =>
      have kept : t.toList.filter (fun r => r.1.key? ≠ some k) = t.toList := by
        rw [List.filter_eq_self, toList_eq]
        intro r mem
        obtain ⟨place, there, here⟩ := List.mem_filterMap.mp mem
        rw [ordered.rowAt_key here, decide_eq_true_iff]
        rintro rfl
        exact ordered.not_mem found there
      simp only [Table.remove, found, kept]
  | some e =>
      have gap := ordered.mem found
      rw [← Array.getElem?_toList] at gap
      have unlike : rowAt (t.index.erase k) none = rowAt (t.index.erase k) (some k) := by
        rw [rowAt_erase, rowAt_erase, if_pos rfl]
        rfl
      simp only [toList_eq, Table.remove, found, Array.toList_setIfInBounds, filterMap_set gap unlike,
        List.filter_filterMap]
      congr 1
      funext place
      rw [rowAt_erase]
      cases here : rowAt t.index place with
      | none => simp
      | some r =>
          have key := ordered.rowAt_key here
          by_cases same : place = some k
          · simp [Option.filter, same, key]
          · simp [Option.filter, same, key]

theorem Ordered.remove (ordered : t.Ordered) (k : Key) : (t.remove k).Ordered := by
  cases found : t.index[k]? with
  | none => simpa only [Table.remove, found] using ordered
  | some e =>
      have gap := ordered.mem found
      simp only [Table.remove, found]
      refine ⟨?_, ?_⟩
      · intro k' i
        simp only [Array.getElem?_setIfInBounds, Std.HashMap.getElem?_erase, beq_iff_eq]
        by_cases same : k = k'
        · subst same
          simp only [if_true, reduceCtorEq, false_and, exists_false, iff_false]
          split
          · simp
          · next elsewhere =>
              intro here
              obtain ⟨e', found', rfl⟩ := (ordered.places k i).mp here
              obtain rfl := Option.some.inj (found.symm.trans found')
              exact elsewhere rfl
        · simp only [same, if_false]
          rw [← ordered.places k' i]
          split
          · next there =>
              subst there
              rw [gap]
              simp [same]
          · rfl
      · intro k' e' found'
        rw [Std.HashMap.getElem?_erase] at found'
        split at found'
        · cases found'
        · exact ordered.keys k' e' found'

/-! ### Giving a key a value -/

theorem rowAt_insert (index : Std.HashMap Key Entry) (k : Key) (e : Entry) (place : Option Key) :
    rowAt (index.insert k e) place =
      if place = some k then some (e.key, e.value) else rowAt index place := by
  cases place with
  | none => rfl
  | some k' =>
      simp only [rowAt, Std.HashMap.getElem?_insert, beq_iff_eq, Option.some.injEq, eq_comm (a := k')]
      split <;> rfl

/-- A key that is there keeps its place. -/
theorem Ordered.toList_insert (ordered : t.Ordered) {key value : Value} (searched : key.key? = some k)
    (present : value.isNil = false) : (t.insert k key value).toList = Rows.put t.toList key value := by
  have any : (t.toList.any fun r => r.1.key? = some k) = (t.index[k]?).isSome := by
    rw [Bool.eq_iff_iff, List.any_eq_true, Option.isSome_iff_exists, toList_eq]
    constructor
    · rintro ⟨r, mem, same⟩
      obtain ⟨place, -, here⟩ := List.mem_filterMap.mp mem
      rw [ordered.rowAt_key here, decide_eq_true_iff] at same
      subst same
      obtain ⟨e, found, -⟩ := Option.map_eq_some_iff.mp here
      exact ⟨e, found⟩
    · rintro ⟨e, found⟩
      have there := ordered.mem found
      rw [← Array.getElem?_toList] at there
      refine ⟨(e.key, e.value), List.mem_filterMap.mpr ⟨_, List.mem_of_getElem? there, ?_⟩, ?_⟩
      · rw [rowAt, found, Option.map_some]
      · rw [ordered.keys k e found, decide_eq_true_iff]
  simp only [Rows.put, present, searched, any, Bool.false_eq_true, if_false]
  cases found : t.index[k]? with
  | some e =>
      simp only [toList_eq, Table.insert, found, Option.isSome_some, if_true, List.map_filterMap]
      congr 1
      funext place
      rw [rowAt_insert]
      by_cases same : place = some k
      · subst same
        simp [rowAt, found, ordered.keys k e found]
      · rw [if_neg same]
        cases here : rowAt t.index place with
        | none => rfl
        | some r => simp [ordered.rowAt_key here, same]
  | none =>
      simp only [toList_eq, Table.insert, found, Option.isSome_none, Bool.false_eq_true, if_false,
        Array.toList_push, List.filterMap_append]
      congr 1
      · refine List.filterMap_congr fun place mem => ?_
        rw [rowAt_insert, if_neg]
        rintro rfl
        exact ordered.not_mem found mem
      · rw [List.filterMap_cons, rowAt_insert, if_pos rfl, List.filterMap_nil]

theorem Ordered.insert (ordered : t.Ordered) {key : Value} (searched : key.key? = some k) (value : Value) :
    (t.insert k key value).Ordered := by
  cases found : t.index[k]? with
  | some e =>
      simp only [Table.insert, found]
      refine ⟨?_, ?_⟩
      · intro k' i
        rw [ordered.places k' i, Std.HashMap.getElem?_insert]
        by_cases same : k = k'
        · subst same
          simp [found]
        · simp [same]
      · intro k' e' found'
        rw [Std.HashMap.getElem?_insert] at found'
        split at found'
        · next same =>
            obtain rfl := Option.some.inj found'
            rw [beq_iff_eq] at same
            exact same ▸ ordered.keys k e found
        · exact ordered.keys k' e' found'
  | none =>
      have new := ordered.not_mem found
      simp only [Table.insert, found]
      refine ⟨?_, ?_⟩
      · intro k' i
        rw [Std.HashMap.getElem?_insert, Array.getElem?_push]
        by_cases same : k = k'
        · subst same
          simp only [beq_self_eq_true, if_true, Option.some.injEq, exists_eq_left']
          split
          · next last => simp [last]
          · next earlier =>
              refine ⟨fun here => ?_, fun last => absurd last.symm earlier⟩
              rw [← Array.getElem?_toList] at here
              exact absurd (List.mem_of_getElem? here) new
        · simp only [beq_iff_eq, same, if_false, ← ordered.places k' i]
          split
          · next last =>
              subst last
              simp [same]
          · rfl
      · intro k' e' found'
        rw [Std.HashMap.getElem?_insert] at found'
        split at found'
        · next same =>
            obtain rfl := Option.some.inj found'
            rw [beq_iff_eq] at same
            rw [Value.key?_normalized (by rw [searched]; exact Option.some_ne_none k), searched, same]
        · exact ordered.keys k' e' found'

/-! ### Building a table -/

/-- A write is the one on rows. -/
theorem Ordered.set (ordered : t.Ordered) {key : Value} (valid : key.key? ≠ none) (value : Value) :
    (t.set key value).Ordered ∧ (t.set key value).toList = Rows.put t.toList key value := by
  obtain ⟨k, searched⟩ := Option.ne_none_iff_exists'.mp valid
  simp only [Table.set, searched, setKey]
  cases absent : value.isNil with
  | true =>
      simp only [if_true]
      refine ⟨ordered.remove k, ?_⟩
      rw [ordered.toList_remove, Rows.put, if_pos absent, searched]
  | false =>
      simp only [Bool.false_eq_true, if_false]
      exact ⟨ordered.insert searched value, ordered.toList_insert searched absent⟩

/-- Rows that are written one after the other are put into the list of rows. -/
theorem Ordered.foldl (ordered : t.Ordered) {rows : List (Value × Value)}
    (valid : ∀ r ∈ rows, r.1.key? ≠ none) :
    (rows.foldl (fun t (key, value) => t.set key value) t).toList =
      rows.foldl (fun done r => Rows.put done r.1 r.2) t.toList := by
  induction rows generalizing t with
  | nil => rfl
  | cons r rows ih =>
      obtain ⟨ordered', same⟩ := ordered.set (valid r List.mem_cons_self) r.2
      rw [List.foldl_cons, List.foldl_cons, ← same]
      exact ih ordered' fun r mem => valid r (List.mem_cons_of_mem _ mem)

/-- A table that is built of rows has what they come to. -/
theorem toList_tableOf {rows : List (Value × Value)} (valid : ∀ r ∈ rows, r.1.key? ≠ none) :
    (Config.tableOf rows).toList = Rows.folded rows :=
  ordered_empty.foldl valid

end Table

end LuaHost.Guest
