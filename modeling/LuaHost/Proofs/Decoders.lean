import LuaHost.Proofs.Sights
import Mathlib.Data.List.Forall2
/-!
What decoders make of guest values. Whether a value conforms to a decoder, what is given for it, and where
a value that does not conform offends first are stated by recursion on the decoder, without any regard to
how tables are read.
-/

namespace LuaHost

namespace Decoder

/-- A value has the shape that is expected of it. -/
def Conforms (store : Guest.Store) : Decoder → Sight → Prop
  | nil, x => x = .nil
  | bool, x => ∃ b, x = .bool b
  | int, x => ∃ n, x = .int n
  | float, x => ∃ y, x = .float y
  | number, x => (∃ n, x = .int n) ∨ ∃ y, x = .float y
  | string, x => ∃ s, x = .string s
  | value, _ => True
  | reference, x => x ≠ .nil
  | optional inner, x => x = .nil ∨ inner.Conforms store x
  | list item, x => ∃ t, x.table? store = some t ∧
      ∀ i, 1 ≤ i → i ≤ t.length → item.Conforms store (t.getInt (Int32.ofNat i)).sight
  | table key entry, x => ∃ t, x.table? store = some t ∧
      ∀ e ∈ t.entries, key.Conforms store e.key.sight ∧ entry.Conforms store e.value.sight

/-- The decoders that do not look into values. -/
def IsPlain : Decoder → Prop
  | optional _ | list _ | table _ _ => False
  | _ => True

/-- A decoder itself turns a value away: another shape is expected, whatever may be inside of it. -/
def Rejects (store : Guest.Store) : Decoder → Sight → Prop
  | optional _, _ => False
  | list _, x | table _ _, x => x.table? store = none
  | decoder, x => ¬ decoder.Conforms store x

/-- The entries before the one at a place conform. -/
def ConformBefore (store : Guest.Store) (key entry : Decoder) (entries : List Guest.Entry) (i : Nat) :
    Prop :=
  ∀ j < i, ∀ e, entries[j]? = some e →
    key.Conforms store e.key.sight ∧ entry.Conforms store e.value.sight

/-- Where a value offends first: the path, its outermost segment first, the part of the decoder that turns
away what is found there, and what that is. Whatever comes before conforms: in a table the entries before,
and of an entry its key. -/
inductive Offends (store : Guest.Store) : Decoder → Sight → List String → Decoder → Sight → Prop
  | here {decoder : Decoder} {x : Sight} (rejects : decoder.Rejects store x) :
      Offends store decoder x [] decoder x
  | inner {inner part : Decoder} {x y : Sight} {path : List String} (present : x ≠ .nil)
      (offends : Offends store inner x path part y) : Offends store (.optional inner) x path part y
  | item {item part : Decoder} {x y : Sight} {path : List String} {t : Guest.Table} {i : Nat}
      (found : x.table? store = some t) (positive : 1 ≤ i) (bound : i ≤ t.length)
      (before : ∀ j, 1 ≤ j → j < i → item.Conforms store (t.getInt (Int32.ofNat j)).sight)
      (offends : Offends store item (t.getInt (Int32.ofNat i)).sight path part y) :
      Offends store (.list item) x (("[" ++ toString i ++ "]") :: path) part y
  | key {key entry part : Decoder} {x y : Sight} {path : List String} {t : Guest.Table} {i : Nat}
      {e : Guest.Entry} (found : x.table? store = some t) (here : t.entries[i]? = some e)
      (before : ConformBefore store key entry t.entries i)
      (offends : Offends store key e.key.sight path part y) :
      Offends store (.table key entry) x (("[" ++ e.key.sight.describe ++ "]") :: path) part y
  | value {key entry part : Decoder} {x y : Sight} {path : List String} {t : Guest.Table} {i : Nat}
      {e : Guest.Entry} (found : x.table? store = some t) (here : t.entries[i]? = some e)
      (before : ConformBefore store key entry t.entries i)
      (conforms : key.Conforms store e.key.sight)
      (offends : Offends store entry e.value.sight path part y) :
      Offends store (.table key entry) x (("[" ++ e.key.sight.describe ++ "]") :: path) part y

variable {store : Guest.Store} {decoder : Decoder} {x : Sight}

theorem Rejects.not_conforms (rejects : decoder.Rejects store x) : ¬ decoder.Conforms store x := by
  cases decoder with
  | optional => exact rejects.elim
  | list | table =>
      rintro ⟨t, found, -⟩
      exact nomatch found.symm.trans rejects
  | _ => exact rejects

theorem Offends.not_conforms {path : List String} {part : Decoder} {y : Sight}
    (offends : decoder.Offends store x path part y) : ¬ decoder.Conforms store x := by
  induction offends with
  | here rejects => exact rejects.not_conforms
  | inner present offends ih =>
      rintro (absent | conforms)
      · exact present absent
      · exact ih conforms
  | @item _ _ _ _ _ t i found positive bound before offends ih =>
      rintro ⟨t', found', conforms⟩
      obtain rfl : t = t' := Option.some.inj (found.symm.trans found')
      exact ih (conforms i positive bound)
  | @key _ _ _ _ _ _ t i e found here before offends ih =>
      rintro ⟨t', found', conforms⟩
      obtain rfl : t = t' := Option.some.inj (found.symm.trans found')
      exact ih (conforms e (List.mem_of_getElem? here)).1
  | @value _ _ _ _ _ _ t i e found here before conforms offends ih =>
      rintro ⟨t', found', conforms'⟩
      obtain rfl : t = t' := Option.some.inj (found.symm.trans found')
      exact ih (conforms' e (List.mem_of_getElem? here)).2

/-- A part at which a value offends turns away what is found there. -/
theorem Offends.rejects {path : List String} {part : Decoder} {y : Sight}
    (offends : decoder.Offends store x path part y) : part.Rejects store y := by
  induction offends with
  | here rejects => exact rejects
  | inner _ _ ih | item _ _ _ _ _ ih | key _ _ _ _ ih | value _ _ _ _ _ ih => exact ih

/-- The entry at which a table offends first is the only one. -/
theorem first_entry {key entry : Decoder} {entries : List Guest.Entry} {i i' : Nat}
    {e e' : Guest.Entry} (here : entries[i]? = some e) (here' : entries[i']? = some e')
    (before : ConformBefore store key entry entries i)
    (before' : ConformBefore store key entry entries i')
    (offends : ¬ (key.Conforms store e.key.sight ∧ entry.Conforms store e.value.sight))
    (offends' : ¬ (key.Conforms store e'.key.sight ∧ entry.Conforms store e'.value.sight)) :
    e = e' := by
  rcases Nat.lt_trichotomy i i' with earlier | rfl | later
  · exact absurd (before' i earlier e here) offends
  · exact Option.some.inj (here.symm.trans here')
  · exact absurd (before i' later e' here') offends'

/-- A value offends first at one place only. -/
theorem Offends.unique {path path' : List String} {part part' : Decoder} {y y' : Sight}
    (offends : decoder.Offends store x path part y)
    (offends' : decoder.Offends store x path' part' y') : path' = path ∧ part' = part ∧ y' = y := by
  induction offends generalizing path' part' y' with
  | here rejects =>
      cases offends' with
      | here => exact ⟨rfl, rfl, rfl⟩
      | inner => exact rejects.elim
      | item found | key found | value found => exact nomatch found.symm.trans rejects
  | inner present offends ih =>
      cases offends' with
      | here rejects => exact rejects.elim
      | inner _ offends' => exact ih offends'
  | @item _ _ _ _ _ t i found positive bound before offends ih =>
      cases offends' with
      | here rejects => exact nomatch found.symm.trans rejects
      | @item _ _ _ _ _ t' i' found' positive' bound' before' offends' =>
          obtain rfl : t = t' := Option.some.inj (found.symm.trans found')
          rcases Nat.lt_trichotomy i i' with earlier | rfl | later
          · exact absurd (before' i positive earlier) offends.not_conforms
          · obtain ⟨rfl, rfl, rfl⟩ := ih offends'
            exact ⟨rfl, rfl, rfl⟩
          · exact absurd (before i' positive' later) offends'.not_conforms
  | @key _ _ _ _ _ _ t i e found here before offends ih =>
      have wrong := offends.not_conforms
      cases offends' with
      | here rejects => exact nomatch found.symm.trans rejects
      | @key _ _ _ _ _ _ t' i' e' found' here' before' offends' =>
          obtain rfl : t = t' := Option.some.inj (found.symm.trans found')
          have wrong' := offends'.not_conforms
          obtain rfl := first_entry here here' before before' (fun h => wrong h.1) fun h => wrong' h.1
          obtain ⟨rfl, rfl, rfl⟩ := ih offends'
          exact ⟨rfl, rfl, rfl⟩
      | @value _ _ _ _ _ _ t' i' e' found' here' before' conforms' offends' =>
          obtain rfl : t = t' := Option.some.inj (found.symm.trans found')
          have wrong' := offends'.not_conforms
          obtain rfl := first_entry here here' before before' (fun h => wrong h.1) fun h => wrong' h.2
          exact absurd conforms' wrong
  | @value _ _ _ _ _ _ t i e found here before conforms offends ih =>
      have wrong := offends.not_conforms
      cases offends' with
      | here rejects => exact nomatch found.symm.trans rejects
      | @key _ _ _ _ _ _ t' i' e' found' here' before' offends' =>
          obtain rfl : t = t' := Option.some.inj (found.symm.trans found')
          have wrong' := offends'.not_conforms
          obtain rfl := first_entry here here' before before' (fun h => wrong h.2) fun h => wrong' h.1
          exact absurd conforms wrong'
      | @value _ _ _ _ _ _ t' i' e' found' here' before' conforms' offends' =>
          obtain rfl : t = t' := Option.some.inj (found.symm.trans found')
          have wrong' := offends'.not_conforms
          obtain rfl := first_entry here here' before before' (fun h => wrong h.2) fun h => wrong' h.2
          obtain ⟨rfl, rfl, rfl⟩ := ih offends'
          exact ⟨rfl, rfl, rfl⟩

end Decoder

namespace World
variable {σ : Type}

/-- What is given for a value mirrors it, element by element: items by their index, entries in the order
of the traversal. Objects are given as they are seen. -/
def Mirrors (w : World σ) (store : Guest.Store) (session : Nat) : Decoder → Sight → Decoded → Prop
  | .nil, x, r => x = .nil ∧ r = .null
  | .bool, x, r => ∃ b, x = .bool b ∧ r = .bool b
  | .int, x, r => ∃ n, x = .int n ∧ r = .int n
  | .float, x, r => ∃ y, x = .float y ∧ r = .number y
  | .number, x, r => (∃ n, x = .int n ∧ r = .number (Float.ofInt n)) ∨ ∃ y, x = .float y ∧ r = .number y
  | .string, x, r => ∃ s, x = .string s ∧ r = .string s
  | .value, x, r => ∃ d, w.Shows session d x ∧ r = .value d
  | .reference, x, r => ∃ d, w.Shows session d x ∧ r = .reference ⟨d⟩
  | .optional inner, x, r => (x = .nil ∧ r = .absent) ∨ (x ≠ .nil ∧ w.Mirrors store session inner x r)
  | .list item, x, r => ∃ t rs, x.table? store = some t ∧ r = .list rs ∧
      List.Forall₂ (fun i => w.Mirrors store session item (t.getInt (Int32.ofNat i)).sight)
        (List.range' 1 t.length) rs
  | .table key entry, x, r => ∃ t rs, x.table? store = some t ∧ r = .pairs rs ∧
      List.Forall₂ (fun e pair =>
        (∃ k, w.Mirrors store session key e.key.sight k ∧ pair.1 = asGiven e.given k) ∧
          w.Mirrors store session entry e.value.sight pair.2) t.entries rs

/-- What a decoder has to make of a value: it gives what mirrors a value that conforms, and says of any other
where it offends first. -/
inductive Judged (store : Guest.Store) (session : Nat) (decoder : Decoder) (x : Sight) :
    DecodeResult σ Decoded → Prop
  | accepts {w : World σ} {r : Decoded} (conforms : decoder.Conforms store x)
      (mirrors : w.Mirrors store session decoder x r) : Judged store session decoder x (w, .ok r)
  | refuses {w : World σ} {path : List String} {part : Decoder} {y : Sight}
      (offends : decoder.Offends store x path part y) :
      Judged store session decoder x (w, .error (.mismatch part.expected y.kind path))

variable {w w' : World σ} {store : Guest.Store} {session : Nat} {decoder : Decoder} {x : Sight}

theorem Mirrors.glances {r : Decoded} (mirrors : w.Mirrors store session decoder x r)
    (glances : Glances w w') : w'.Mirrors store session decoder x r := by
  induction decoder generalizing x r with
  | nil | bool | int | float | number | string => exact mirrors
  | value | reference =>
      obtain ⟨d, shows, given⟩ := mirrors
      exact ⟨d, glances.shows _ _ _ shows, given⟩
  | optional inner ih => exact mirrors.imp_right fun given => ⟨given.1, ih given.2⟩
  | list item ih =>
      obtain ⟨t, rs, found, given, each⟩ := mirrors
      exact ⟨t, rs, found, given, each.imp fun _ _ => ih⟩
  | table key entry ihKey ihEntry =>
      obtain ⟨t, rs, found, given, each⟩ := mirrors
      refine ⟨t, rs, found, given, each.imp fun e pair mirrored => ?_⟩
      obtain ⟨⟨k, here, asked⟩, there⟩ := mirrored
      exact ⟨⟨k, ihKey here, asked⟩, ihEntry there⟩

/-- What a decoder gives without looking into a value mirrors it. -/
theorem mirrors_plain {d : Datum} {r : Decoded} (shows : w.Shows session d x)
    (given : decoder.plain? d = some r) :
    decoder.Conforms store x ∧ w.Mirrors store session decoder x r := by
  have isNil := shows.isNil
  cases decoder with
  | optional | list | table => exact nomatch given
  | value =>
      obtain rfl := Option.some.inj given
      exact ⟨trivial, d, shows, rfl⟩
  | reference =>
      simp only [Decoder.plain?] at given
      split at given
      · exact nomatch given
      · next present =>
          obtain rfl := Option.some.inj given
          exact ⟨fun absent => present (isNil.mpr absent), d, shows, rfl⟩
  | _ => cases shows <;> simp_all [Decoder.plain?, Decoder.Conforms, Mirrors]

/-- What a decoder that does not look into a value gives nothing for, it turns away itself. -/
theorem rejects_plain {d : Datum} (plain : decoder.IsPlain) (shows : w.Shows session d x)
    (refused : decoder.plain? d = none) : decoder.Rejects store x := by
  have isNil := shows.isNil
  cases decoder with
  | optional | list | table => exact plain.elim
  | value => exact nomatch refused
  | _ =>
      cases shows <;>
        simp_all [Decoder.plain?, Decoder.Rejects, Decoder.Conforms]

theorem decodePlain_judged {d : Datum} (plain : decoder.IsPlain) (shows : w.Shows session d x) :
    Judged store session decoder x (w.decodePlain decoder d) := by
  unfold decodePlain
  split
  · next r given =>
      obtain ⟨conforms, mirrors⟩ : decoder.Conforms store x ∧ w.Mirrors store session decoder x r :=
        mirrors_plain shows given
      exact .accepts conforms mirrors
  · next refused =>
      rw [Refusal.ofShape, shows.kind]
      exact .refuses (.here (rejects_plain plain shows refused))

/-- Guest values can be looked at in a session whose heap is `store`. -/
structure Ready (store : Guest.Store) (session : Nat) (w : World σ) : Prop where
  tracked : w.Tracked
  opened : (w.ledger session).closed = false
  heap : (w.machine session).store = store

theorem Ready.looks (ready : Ready store session w) (looks : Looks w w') :
    Ready store session w' ∧ Glances w w' := by
  obtain ⟨tracked, glances⟩ := looks ready.tracked
  refine ⟨⟨tracked, ?_, ?_⟩, glances⟩
  · rw [glances.closed, ready.opened]
  · rw [glances.store, ready.heap]

/-- A guest value is received, and shows what it is. -/
theorem Ready.receive (ready : Ready store session w) (v : Guest.Value) :
    Ready store session (w.receive session v).1 ∧ Glances w (w.receive session v).1 ∧
      (w.receive session v).1.Shows session (w.receive session v).2 v.sight := by
  obtain ⟨ready', glances⟩ := ready.looks (looks_reading.receive w session v)
  obtain ⟨made, sound⟩ := ready.tracked
  exact ⟨ready', glances, sound.receive_shows ready.opened v⟩

/-- What decodes a part of a value does what is expected of the decoder of the part. -/
structure Decodes (store : Guest.Store) (session : Nat) (decoder : Decoder)
    (f : World σ → Datum → DecodeResult σ Decoded) : Prop where
  looks : ∀ w d, Looks w (f w d).1
  judged : ∀ w d x, w.Tracked → (w.machine session).store = store → w.Shows session d x →
    Judged store session decoder x (f w d)

variable {f g : World σ → Datum → DecodeResult σ Decoded} {key entry : Decoder}

/-- A part is decoded, and either mirrored or the first to offend. -/
theorem Decodes.cases (decodes : Decodes store session decoder f) (ready : Ready store session w)
    {d : Datum} (shows : w.Shows session d x) :
    (∃ w' r, f w d = (w', .ok r) ∧ Ready store session w' ∧ Glances w w' ∧
      decoder.Conforms store x ∧ w'.Mirrors store session decoder x r) ∨
    (∃ w' path part y, f w d = (w', .error (.mismatch part.expected y.kind path)) ∧
      decoder.Offends store x path part y) := by
  have judged := decodes.judged w d x ready.tracked ready.heap shows
  have looked := ready.looks (decodes.looks w d)
  generalize f w d = result at judged looked
  cases judged with
  | accepts conforms mirrors => exact .inl ⟨_, _, rfl, looked.1, looked.2, conforms, mirrors⟩
  | refuses offends => exact .inr ⟨_, _, _, _, rfl, offends⟩

/-- Items are decoded one after the other, until one offends. -/
theorem decodeItems_judged (decodes : Decodes store session decoder f)
    (items : List (Nat × Guest.Value)) (ready : Ready store session w) (done : List Decoded) :
    (∃ w' rs, decodeItems f session w items done = (w', .ok (done.reverse ++ rs)) ∧ Glances w w' ∧
      (∀ p ∈ items, decoder.Conforms store p.2.sight) ∧
      List.Forall₂ (fun p => w'.Mirrors store session decoder p.2.sight) items rs) ∨
    (∃ (w' : World σ) (i : Nat) (p : Nat × Guest.Value) (path : List String) (part : Decoder)
        (y : Sight), decodeItems f session w items done =
        (w', .error (.mismatch part.expected y.kind (("[" ++ toString p.1 ++ "]") :: path))) ∧
      items[i]? = some p ∧ (∀ j < i, ∀ p, items[j]? = some p → decoder.Conforms store p.2.sight) ∧
      decoder.Offends store p.2.sight path part y) := by
  induction items generalizing w done with
  | nil => exact .inl ⟨w, [], by simp [decodeItems], .refl w, by simp, .nil⟩
  | cons p rest ih =>
      obtain ⟨index, v⟩ := p
      obtain ⟨ready₁, glances₁, shows⟩ := ready.receive v
      rcases decodes.cases ready₁ shows with
        ⟨w₂, r, given, ready₂, glances₂, conforms, mirrors⟩ | ⟨w₂, path, part, y, refused, offends⟩
      · simp only [decodeItems, given]
        rcases ih ready₂ (r :: done) with
          ⟨w', rs, gave, glances, all, each⟩ | ⟨w', i, p, path, part, y, gave, here, before, offends⟩
        · refine .inl ⟨w', r :: rs, by simpa using gave, (glances₁.trans glances₂).trans glances, ?_, ?_⟩
          · intro p mem
            rcases List.mem_cons.mp mem with rfl | later
            · exact conforms
            · exact all p later
          · exact .cons (mirrors.glances glances) each
        · refine .inr ⟨w', i + 1, p, path, part, y, gave, here, ?_, offends⟩
          intro j earlier q found
          cases j with
          | zero =>
              obtain rfl := Option.some.inj found
              exact conforms
          | succ j => exact before j (Nat.lt_of_succ_lt_succ earlier) q found
      · simp only [decodeItems, refused]
        refine .inr ⟨w₂, 0, (index, v), path, part, y, rfl, rfl, ?_, offends⟩
        exact fun j earlier => absurd earlier j.not_lt_zero

/-- Entries are decoded one after the other and their keys first, until one offends. -/
theorem decodeEntries_judged (decodesKey : Decodes store session key f)
    (decodesValue : Decodes store session entry g) (entries : List Guest.Entry)
    (ready : Ready store session w) (done : List (Decoded × Decoded)) :
    (∃ w' rs, decodeEntries f g session w entries done = (w', .ok (done.reverse ++ rs)) ∧
      Glances w w' ∧
      (∀ e ∈ entries, key.Conforms store e.key.sight ∧ entry.Conforms store e.value.sight) ∧
      List.Forall₂ (fun e pair =>
        (∃ k, w'.Mirrors store session key e.key.sight k ∧ pair.1 = asGiven e.given k) ∧
          w'.Mirrors store session entry e.value.sight pair.2) entries rs) ∨
    (∃ w' i e path part y, decodeEntries f g session w entries done = (w', .error
        (.mismatch part.expected y.kind (("[" ++ e.key.sight.describe ++ "]") :: path))) ∧
      entries[i]? = some e ∧ Decoder.ConformBefore store key entry entries i ∧
      (key.Offends store e.key.sight path part y ∨
        (key.Conforms store e.key.sight ∧ entry.Offends store e.value.sight path part y))) := by
  induction entries generalizing w done with
  | nil => exact .inl ⟨w, [], by simp [decodeEntries], .refl w, by simp, .nil⟩
  | cons e rest ih =>
      obtain ⟨ready₁, glances₁, shows⟩ := ready.receive e.key
      obtain ⟨ready₂, glances₂, shows'⟩ := ready₁.receive e.value
      have described := shows.describe
      have before : Decoder.ConformBefore store key entry (e :: rest) 0 :=
        fun j earlier => absurd earlier j.not_lt_zero
      rcases decodesKey.cases ready₂ (glances₂.shows _ _ _ shows) with
        ⟨w₃, k, given, ready₃, glances₃, conforms, mirrors⟩ | ⟨w₃, path, part, y, refused, offends⟩
      · rcases decodesValue.cases ready₃ (glances₃.shows _ _ _ shows') with
          ⟨w₄, r, given', ready₄, glances₄, conforms', mirrors'⟩ |
          ⟨w₄, path, part, y, refused, offends⟩
        · simp only [decodeEntries, given, given']
          rcases ih ready₄ ((asGiven e.given k, r) :: done) with
            ⟨w', rs, gave, glances, all, each⟩ |
            ⟨w', i, e', path, part, y, gave, here, earlier, offends⟩
          · have looked := ((glances₁.trans glances₂).trans glances₃).trans glances₄
            refine .inl ⟨w', _ :: rs, by simpa using gave, looked.trans glances, ?_, ?_⟩
            · intro e' mem
              rcases List.mem_cons.mp mem with rfl | later
              · exact ⟨conforms, conforms'⟩
              · exact all e' later
            · refine .cons ⟨⟨k, ?_, rfl⟩, mirrors'.glances glances⟩ each
              exact mirrors.glances (glances₄.trans glances)
          · refine .inr ⟨w', i + 1, e', path, part, y, gave, here, ?_, offends⟩
            intro j bound e'' found
            cases j with
            | zero =>
                obtain rfl := Option.some.inj found
                exact ⟨conforms, conforms'⟩
            | succ j => exact earlier j (Nat.lt_of_succ_lt_succ bound) e'' found
        · simp only [decodeEntries, given, refused, Refusal.within, described]
          exact .inr ⟨w₄, 0, e, path, part, y, rfl, rfl, before, .inr ⟨conforms, offends⟩⟩
      · simp only [decodeEntries, refused, Refusal.within, described]
        exact .inr ⟨w₃, 0, e, path, part, y, rfl, rfl, before, .inl offends⟩

theorem itemsOf_getElem? (t : Guest.Table) (i : Nat) :
    (itemsOf t)[i]? = if i < t.length then some (i + 1, t.getInt (Int32.ofNat (i + 1))) else none := by
  rw [itemsOf, List.getElem?_map]
  split
  · next bound => rw [List.getElem?_range' bound, Nat.one_mul, Nat.add_comm, Option.map_some]
  · next beyond => simpa using Nat.le_of_not_lt beyond

theorem decodeList_judged (decodes : Decodes store session decoder f) {d : Datum}
    (tracked : w.Tracked) (heap : (w.machine session).store = store) (shows : w.Shows session d x) :
    Judged store session (.list decoder) x
      (decodeList f (Decoder.list decoder).expected w d) := by
  unfold decodeList
  rw [shows.withTable, heap]
  cases found : x.table? store with
  | none => exact .refuses (.here found)
  | some t =>
      have ready : Ready store session w := ⟨tracked, shows.opened found, heap⟩
      rcases decodeItems_judged decodes (itemsOf t) ready [] with
        ⟨w', rs, gave, -, all, each⟩ | ⟨w', i, p, path, part, y, gave, here, before, offends⟩
      · simp only [gave, List.reverse_nil, List.nil_append]
        refine .accepts ⟨t, found, ?_⟩ ⟨t, rs, found, rfl, ?_⟩
        · intro i positive bound
          refine all (i, t.getInt (Int32.ofNat i)) (List.mem_map_of_mem ?_)
          rw [List.mem_range'_1]
          omega
        · simpa [itemsOf, List.forall₂_map_left_iff] using each
      · simp only [gave]
        rw [itemsOf_getElem?] at here
        split at here
        · next bound =>
            obtain rfl := Option.some.inj here
            refine .refuses (.item found (Nat.succ_pos i) bound ?_ offends)
            intro j positive earlier
            obtain ⟨j, rfl⟩ : ∃ k, j = k + 1 := ⟨j - 1, by omega⟩
            refine before j (by omega) (j + 1, t.getInt (Int32.ofNat (j + 1))) ?_
            rw [itemsOf_getElem?, if_pos (by omega)]
        · exact nomatch here

theorem decodePairs_judged (decodesKey : Decodes store session key f)
    (decodesValue : Decodes store session entry g) {d : Datum} (tracked : w.Tracked)
    (heap : (w.machine session).store = store) (shows : w.Shows session d x) :
    Judged store session (.table key entry) x
      (decodePairs f g (Decoder.table key entry).expected w d) := by
  unfold decodePairs
  rw [shows.withTable, heap]
  cases found : x.table? store with
  | none => exact .refuses (.here found)
  | some t =>
      have ready : Ready store session w := ⟨tracked, shows.opened found, heap⟩
      rcases decodeEntries_judged decodesKey decodesValue t.entries ready [] with
        ⟨w', rs, gave, -, all, each⟩ |
        ⟨w', i, e, path, part, y, gave, here, before, offends | ⟨conforms, offends⟩⟩
      · simp only [gave, List.reverse_nil, List.nil_append]
        exact .accepts ⟨t, found, all⟩ ⟨t, rs, found, rfl, each⟩
      · simp only [gave]
        exact .refuses (.key found here before offends)
      · simp only [gave]
        exact .refuses (.value found here before conforms offends)

/-- Each decoder does what is expected of it. -/
theorem decodeWith_decodes (store : Guest.Store) (session : Nat) (decoder : Decoder) :
    Decodes store session decoder (decodeWith (σ := σ) decoder) where
  looks := looks_reading.decodeWith decoder
  judged := by
    intro w d x tracked heap shows
    induction decoder generalizing w d x with
    | nil | bool | int | float | number | string | value | reference =>
        exact decodePlain_judged trivial shows
    | optional inner ih =>
        rw [decodeWith]
        split
        · next absent =>
            have absent := shows.isNil.mp absent
            exact .accepts (.inl absent) (.inl ⟨absent, rfl⟩)
        · next present =>
            have present : x ≠ .nil := fun absent => present (shows.isNil.mpr absent)
            have judged := ih w d x tracked heap shows
            generalize decodeWith inner w d = result at judged
            cases judged with
            | accepts conforms mirrors => exact .accepts (.inr conforms) (.inr ⟨present, mirrors⟩)
            | refuses offends => exact .refuses (.inner present offends)
    | list item ih =>
        exact decodeList_judged ⟨looks_reading.decodeWith item, ih⟩ tracked heap shows
    | table key entry ihKey ihEntry =>
        exact decodePairs_judged ⟨looks_reading.decodeWith key, ihKey⟩
          ⟨looks_reading.decodeWith entry, ihEntry⟩ tracked heap shows

end World

end LuaHost
