import LuaHost.Proofs.Accounts
import LuaHost.Proofs.Decoders
/-!
What decoders read. On its way into a table a decoder is handed the items, or the keys and the values, one after
the other, up to the first that it refuses; each object among them takes a slot, whatever comes of the whole.
-/

namespace LuaHost

namespace Decoder

/-- What is read, and whether all of it is taken. -/
abbrev Scan := List Guest.Value × Bool

/-- Reads the parts of a table in turn, up to the first that is refused. -/
def scanAll {α : Type} (scan : α → Scan) : List α → Scan
  | [] => ([], true)
  | part :: rest =>
    if (scan part).2 then ((scan part).1 ++ (scanAll scan rest).1, (scanAll scan rest).2)
    else scan part

def scanItem (scan : Guest.Value → Scan) (p : Nat × Guest.Value) : Scan :=
  (p.2 :: (scan p.2).1, (scan p.2).2)

/-- The key and the value of an entry are both there before one looks inside of them. -/
def scanEntry (scanKey scanValue : Guest.Value → Scan) (e : Guest.Entry) : Scan :=
  if (scanKey e.key).2 then
    (e.key :: e.value :: ((scanKey e.key).1 ++ (scanValue e.value).1), (scanValue e.value).2)
  else (e.key :: e.value :: (scanKey e.key).1, false)

/-- The guest values that a decoder reads inside of a value, which may be a table, and whether it takes
the value. -/
def scan (store : Guest.Store) : Decoder → Datum → Option Guest.Table → Scan
  | optional inner, d, inside => if d.isNil then ([], true) else inner.scan store d inside
  | list item, _, some t =>
    scanAll (scanItem fun v => item.scan store (v.sight.datum default) (v.sight.table? store))
      (World.itemsOf t)
  | table key entry, _, some t =>
    scanAll (scanEntry (fun v => key.scan store (v.sight.datum default) (v.sight.table? store))
      fun v => entry.scan store (v.sight.datum default) (v.sight.table? store)) t.entries
  | list _, _, none => ([], false)
  | table _ _, _, none => ([], false)
  | decoder, d, _ => ([], (decoder.plain? d).isSome)

/-- What a decoder reads inside of a guest value. -/
def scanValue (store : Guest.Store) (decoder : Decoder) (v : Guest.Value) : Scan :=
  decoder.scan store (v.sight.datum default) (v.sight.table? store)

theorem scanAll_taken {α : Type} {scan : α → Scan} {p : α} (taken : (scan p).2 = true)
    (rest : List α) : scanAll scan (p :: rest) =
      ((scan p).1 ++ (scanAll scan rest).1, (scanAll scan rest).2) :=
  if_pos taken

theorem scanAll_refused {α : Type} {scan : α → Scan} {p : α} (refused : (scan p).2 = false)
    (rest : List α) : scanAll scan (p :: rest) = scan p := by
  rw [scanAll, refused]
  rfl

/-- Nothing is read inside of what is no table. -/
theorem scan_none (store : Guest.Store) (decoder : Decoder) (d : Datum) :
    (decoder.scan store d none).1 = [] := by
  induction decoder with
  | optional inner ih =>
      rw [scan]
      split
      · rfl
      · exact ih
  | _ => rfl

/-- It does not matter by which handle a value is known. -/
theorem plain?_isSome (decoder : Decoder) (x : Sight) (h h' : Handle) :
    (decoder.plain? (x.datum h)).isSome = (decoder.plain? (x.datum h')).isSome := by
  cases x with
  | nil | bool | int | float | string => rfl
  | object => cases decoder <;> rfl

theorem scan_handle (store : Guest.Store) (decoder : Decoder) (x : Sight) (h h' : Handle)
    (inside : Option Guest.Table) :
    decoder.scan store (x.datum h) inside = decoder.scan store (x.datum h') inside := by
  have isNil : (x.datum h).isNil = (x.datum h').isNil := by cases x <;> rfl
  induction decoder with
  | optional inner ih => rw [scan, scan, isNil, ih]
  | list | table => cases inside <;> rfl
  | _ => simp only [scan, plain?_isSome _ x h h']

end Decoder

namespace World
variable {σ : Type} {w : World σ} {store : Guest.Store} {session : Nat} {decoder : Decoder}

/-- The table that a value stands for, if it may be read. -/
def table? (w : World σ) : Datum → Option Guest.Table
  | .composite .table h => if (w.readViolation? h).isNone then some (w.tableOf h) else none
  | _ => none

/-- What a decoder reads inside of a value that the host holds. -/
def scan (w : World σ) (decoder : Decoder) (d : Datum) : List Guest.Value :=
  match d.handle? with
  | some h => (decoder.scan (w.machine h.session).store d (w.table? d)).1
  | none => []

theorem Shows.table? {d : Datum} {x : Sight} (shows : w.Shows session d x) :
    w.table? d = x.table? (w.machine session).store := by
  cases shows with
  | nil | bool | int | float | string => rfl
  | @object kind index v opened held looks =>
      have given := give_of_denoted kind held
      obtain ⟨slot, taken, -⟩ := held_of_denoted held
      have unreleased := (record_of_slot taken).2
      rcases Sight.table?_object looks (w.machine session).store with
        ⟨id, rfl, rfl, found⟩ | ⟨unlike, found⟩
      · simp only [World.table?, readViolation?, opened, unreleased, found, tableOf, given]
        rfl
      · rw [found]
        cases kind with
        | table => exact absurd rfl unlike
        | function | userdata | thread => rfl

theorem Shows.handle_session {d : Datum} {x : Sight} (shows : w.Shows session d x) (h : Handle)
    (handle : d.handle? = some h) : h.session = session := by
  cases shows with
  | nil | bool | int | float | string => exact nomatch handle
  | object => exact congrArg Handle.session (Option.some.inj handle).symm

/-- A table is looked at if it may be read. -/
theorem withTable_eq {α : Type} (expected : String) (d : Datum)
    (k : Nat → Guest.Table → DecodeResult σ α) (own : ∀ h, d.handle? = some h → h.session = session) :
    (∃ t, w.table? d = some t ∧ w.withTable expected d k = k session t) ∨
      w.table? d = none ∧ ∃ r, w.withTable expected d k = (w, .error r) := by
  cases d with
  | nil | bool | int | float | string => exact .inr ⟨rfl, _, rfl⟩
  | composite kind h =>
      cases kind with
      | function | userdata | thread => exact .inr ⟨rfl, _, rfl⟩
      | table =>
          simp only [World.table?, withTable, own h rfl]
          cases w.readViolation? h with
          | some fault => exact .inr ⟨rfl, _, rfl⟩
          | none => exact .inl ⟨_, rfl, rfl⟩

/-- What decodes as a decoder does reads as much as it takes to tell whether a value is taken. -/
structure Scans (store : Guest.Store) (session : Nat) (decoder : Decoder)
    (f : World σ → Datum → DecodeResult σ Decoded) : Prop where
  looks : ∀ w d, Looks w (f w d).1
  counts : ∀ w d, Ready store session w → (∀ h, d.handle? = some h → h.session = session) →
    Gains w (f w d).1 session ((decoder.scan store d (w.table? d)).1.countP Guest.Value.isObject) ∧
      (f w d).2.isOk = (decoder.scan store d (w.table? d)).2

variable {f g : World σ → Datum → DecodeResult σ Decoded} {key entry : Decoder}

/-- A part of a table has been received, and is decoded. -/
theorem Scans.part (scans : Scans store session decoder f) (ready : Ready store session w) {d : Datum}
    {v : Guest.Value} (shows : w.Shows session d v.sight) :
    (Ready store session (f w d).1 ∧ Glances w (f w d).1) ∧
      Gains w (f w d).1 session ((decoder.scanValue store v).1.countP Guest.Value.isObject) ∧
      (f w d).2.isOk = (decoder.scanValue store v).2 := by
  obtain ⟨index, same⟩ := shows.datum
  have counted := scans.counts w d ready shows.handle_session
  rw [shows.table?, ready.heap, same, decoder.scan_handle store v.sight _ default, ← same] at counted
  exact ⟨ready.looks (scans.looks w d), counted⟩

/-- Items are read one after the other, up to the first that is refused. -/
theorem Scans.items (scans : Scans store session decoder f) (items : List (Nat × Guest.Value))
    (ready : Ready store session w) (done : List Decoded) :
    Gains w (decodeItems f session w items done).1 session
        ((Decoder.scanAll (Decoder.scanItem (decoder.scanValue store)) items).1.countP
          Guest.Value.isObject) ∧
      (decodeItems f session w items done).2.isOk =
        (Decoder.scanAll (Decoder.scanItem (decoder.scanValue store)) items).2 := by
  induction items generalizing w done with
  | nil => exact ⟨.refl w session, rfl⟩
  | cons p rest ih =>
      obtain ⟨index, v⟩ := p
      obtain ⟨ready₁, -, shows⟩ := ready.receive v
      obtain ⟨⟨ready₂, -⟩, gains, taken⟩ := scans.part ready₁ shows
      have first := (receive_gains (opened_lt ready.opened) v).trans gains
      rw [Nat.add_comm, ← List.countP_cons] at first
      simp only [decodeItems]
      generalize f (w.receive session v).1 (w.receive session v).2 = result at ready₂ first taken
      obtain ⟨w₂, r | x⟩ := result
      · rw [Decoder.scanAll_refused (p := (index, v)) taken.symm]
        exact ⟨first, taken⟩
      · obtain ⟨others, all⟩ := ih ready₂ (x :: done)
        rw [Decoder.scanAll_taken (p := (index, v)) taken.symm]
        refine ⟨?_, all⟩
        rw [List.countP_append]
        exact first.trans others

/-- Entries are read one after the other, keys and values before anything inside of them. -/
theorem Scans.entries (scansKey : Scans store session key f) (scansValue : Scans store session entry g)
    (entries : List Guest.Entry) (ready : Ready store session w) (done : List (Decoded × Decoded)) :
    let scan := Decoder.scanEntry (key.scanValue store) (entry.scanValue store)
    Gains w (decodeEntries f g session w entries done).1 session
        ((Decoder.scanAll scan entries).1.countP Guest.Value.isObject) ∧
      (decodeEntries f g session w entries done).2.isOk = (Decoder.scanAll scan entries).2 := by
  intro scan
  induction entries generalizing w done with
  | nil => exact ⟨.refl w session, rfl⟩
  | cons e rest ih =>
      obtain ⟨ready₁, glances₁, shows⟩ := ready.receive e.key
      obtain ⟨ready₂, glances₂, shows'⟩ := ready₁.receive e.value
      obtain ⟨⟨ready₃, glances₃⟩, gains, taken⟩ := scansKey.part ready₂ (glances₂.shows _ _ _ shows)
      have received := (receive_gains (opened_lt ready.opened) e.key).trans
        (receive_gains (opened_lt ready₁.opened) e.value)
      have counts (read : List Guest.Value) :
          (e.key :: e.value :: read).countP Guest.Value.isObject =
            (if e.key.isObject then 1 else 0) + (if e.value.isObject then 1 else 0) +
              read.countP Guest.Value.isObject := by
        rw [List.countP_cons, List.countP_cons]
        omega
      have first := received.trans gains
      simp only [decodeEntries]
      generalize f ((w.receive session e.key).1.receive session e.value).1
        (w.receive session e.key).2 = result at ready₃ glances₃ first taken
      obtain ⟨w₃, r | x⟩ := result
      · have refused : scan e = (e.key :: e.value :: (key.scanValue store e.key).1, false) :=
          if_neg (by simp [← taken, Except.isOk, Except.toBool])
        rw [Decoder.scanAll_refused (by rw [refused]), refused, counts]
        exact ⟨first, rfl⟩
      · obtain ⟨⟨ready₄, -⟩, gains', taken'⟩ := scansValue.part ready₃ (glances₃.shows _ _ _ shows')
        have second := first.trans gains'
        have scanned : scan e = (e.key :: e.value ::
            ((key.scanValue store e.key).1 ++ (entry.scanValue store e.value).1),
            (entry.scanValue store e.value).2) := if_pos taken.symm
        dsimp only
        generalize g w₃ ((w.receive session e.key).1.receive session e.value).2 = result'
          at ready₄ second taken'
        obtain ⟨w₄, r | y⟩ := result'
        · rw [Decoder.scanAll_refused (by rw [scanned]; exact taken'.symm), scanned, counts,
            List.countP_append, ← Nat.add_assoc]
          exact ⟨second, taken'⟩
        · obtain ⟨others, all⟩ := ih ready₄ ((asGiven e.given x, y) :: done)
          rw [Decoder.scanAll_taken (by rw [scanned]; exact taken'.symm), scanned, List.countP_append,
            counts, List.countP_append, ← Nat.add_assoc]
          exact ⟨second.trans others, all⟩

theorem decodePlain_world (w : World σ) (decoder : Decoder) (d : Datum) :
    (w.decodePlain decoder d).1 = w ∧
      (w.decodePlain decoder d).2.isOk = (decoder.plain? d).isSome := by
  rw [decodePlain]
  cases decoder.plain? d <;> exact ⟨rfl, rfl⟩

theorem Scans.list (scans : Scans store session decoder f) {d : Datum} (ready : Ready store session w)
    (own : ∀ h, d.handle? = some h → h.session = session) :
    let read := (Decoder.list decoder).scan store d (w.table? d)
    Gains w (decodeList f (Decoder.list decoder).expected w d).1 session
        (read.1.countP Guest.Value.isObject) ∧
      (decodeList f (Decoder.list decoder).expected w d).2.isOk = read.2 := by
  rw [decodeList]
  rcases withTable_eq _ d _ own with ⟨t, found, looked⟩ | ⟨missing, r, refused⟩
  · have items := scans.items (itemsOf t) ready []
    rw [looked, found]
    generalize decodeItems f session w (itemsOf t) [] = result at items
    obtain ⟨w', r | xs⟩ := result <;> exact items
  · rw [refused, missing]
    exact ⟨.refl w session, rfl⟩

theorem Scans.pairs (scansKey : Scans store session key f) (scansValue : Scans store session entry g)
    {d : Datum} (ready : Ready store session w) (own : ∀ h, d.handle? = some h → h.session = session) :
    let read := (Decoder.table key entry).scan store d (w.table? d)
    Gains w (decodePairs f g (Decoder.table key entry).expected w d).1 session
        (read.1.countP Guest.Value.isObject) ∧
      (decodePairs f g (Decoder.table key entry).expected w d).2.isOk = read.2 := by
  rw [decodePairs]
  rcases withTable_eq _ d _ own with ⟨t, found, looked⟩ | ⟨missing, r, refused⟩
  · have entries := scansKey.entries scansValue t.entries ready []
    rw [looked, found]
    generalize decodeEntries f g session w t.entries [] = result at entries
    obtain ⟨w', r | xs⟩ := result <;> exact entries
  · rw [refused, missing]
    exact ⟨.refl w session, rfl⟩

/-- Each decoder reads as much as it takes. -/
theorem decodeWith_scans (store : Guest.Store) (session : Nat) (decoder : Decoder) :
    Scans store session decoder (decodeWith (σ := σ) decoder) where
  looks := looks_reading.decodeWith decoder
  counts := by
    intro w d ready own
    induction decoder generalizing w d with
    | nil | bool | int | float | number | string | value | reference =>
        obtain ⟨same, taken⟩ := w.decodePlain_world _ d
        refine ⟨?_, taken⟩
        rw [decodeWith, same]
        · exact .refl w session
        all_goals simp
    | optional inner ih =>
        rw [decodeWith, Decoder.scan]
        split
        · exact ⟨.refl w session, rfl⟩
        · exact ih w d ready own
    | list item ih => exact Scans.list ⟨looks_reading.decodeWith item, ih⟩ ready own
    | table key entry ihKey ihEntry =>
        exact Scans.pairs ⟨looks_reading.decodeWith key, ihKey⟩ ⟨looks_reading.decodeWith entry, ihEntry⟩
          ready own

theorem opened_of_table {d : Datum} {h : Handle} {t : Guest.Table} (handle : d.handle? = some h)
    (found : w.table? d = some t) : (w.ledger h.session).closed = false := by
  cases d with
  | nil | bool | int | float | string => exact nomatch handle
  | composite kind h' =>
      obtain rfl : h' = h := Option.some.inj handle
      cases kind with
      | function | userdata | thread => exact nomatch found
      | table =>
          simp only [World.table?, readViolation?] at found
          cases closed : (w.ledger h'.session).closed with
          | false => rfl
          | true => simp [closed] at found

theorem withTable_missing {α : Type} {d : Datum} (missing : w.table? d = none) (expected : String)
    (k : Nat → Guest.Table → DecodeResult σ α) : (w.withTable expected d k).1 = w := by
  cases handle : d.handle? with
  | none =>
      cases d with
      | nil | bool | int | float | string => rfl
      | composite => exact nomatch handle
  | some h =>
      have own : ∀ h', d.handle? = some h' → h'.session = h.session := fun h' same => by
        rw [Option.some.inj (handle.symm.trans same)]
      rcases withTable_eq expected d k own with ⟨t, found, -⟩ | ⟨-, r, refused⟩
      · exact nomatch missing.symm.trans found
      · rw [refused]

/-- A value that is no table is decoded at sight. -/
theorem decodeWith_unread {d : Datum} (missing : w.table? d = none) (decoder : Decoder) :
    (decodeWith decoder w d).1 = w := by
  induction decoder with
  | nil | bool | int | float | number | string | value | reference =>
      rw [decodeWith]
      · exact (w.decodePlain_world _ d).1
      all_goals simp
  | optional inner ih =>
      rw [decodeWith]
      split
      · rfl
      · exact ih
  | list =>
      rw [decodeWith, decodeList]
      exact withTable_missing missing _ _
  | table =>
      rw [decodeWith, decodePairs]
      exact withTable_missing missing _ _

theorem decode_untouched (w : World σ) (d : Datum) (decoder : Decoder) :
    Untouched (decodeWith decoder w d).1 (w.decode d decoder).1 := by
  unfold decode
  generalize decodeWith decoder w d = result
  obtain ⟨w', (_ | _) | x⟩ := result <;> exact ⟨rfl, rfl⟩

/-- Whatever comes of it, decoding takes a slot for each object that the decoder has read. -/
theorem decode_gains (tracked : w.Tracked) {d : Datum} {h : Handle} (handle : d.handle? = some h)
    (decoder : Decoder) : Gains w (w.decode d decoder).1 h.session
      ((w.scan decoder d).countP Guest.Value.isObject) := by
  have own : ∀ h', d.handle? = some h' → h'.session = h.session := fun h' same => by
    rw [Option.some.inj (handle.symm.trans same)]
  have ended := (w.decode_untouched d decoder).gains h.session
  simp only [World.scan, handle]
  cases found : w.table? d with
  | none =>
      rw [decodeWith_unread found] at ended
      rwa [Decoder.scan_none]
  | some t =>
      have opened : (w.ledger h.session).closed = false := opened_of_table handle found
      have gains := ((decodeWith_scans _ h.session decoder).counts w d ⟨tracked, opened, rfl⟩ own).1
      rw [found] at gains
      exact gains.trans ended

theorem decode_primitive {d : Datum} (handle : d.handle? = none) (decoder : Decoder) :
    Untouched w (w.decode d decoder).1 := by
  have unread : w.table? d = none := by
    cases d with
    | nil | bool | int | float | string => rfl
    | composite => exact nomatch handle
  have ended := w.decode_untouched d decoder
  rwa [decodeWith_unread unread] at ended

end World

end LuaHost
