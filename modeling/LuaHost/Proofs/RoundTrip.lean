import LuaHost.Proofs.Decoders
import LuaHost.Proofs.Doubles
import LuaHost.Proofs.Encoders
import LuaHost.Proofs.RecordOrder
/-!
Decoding undoes encoding. A shape says how values of the host are nested, and gives them an encoder and a
decoder. Encoding a value of a shape ends with a guest value that has the same structure, however deep it
is, and the decoder of the shape gives that structure back.
-/

namespace LuaHost

variable {σ : Type}

/-- What the keys of a table are. -/
inductive KeyShape where
  | bool | int | string

namespace KeyShape

def Host : KeyShape → Type
  | bool => Bool
  | int => Int32
  | string => String

def primitive : (shape : KeyShape) → shape.Host → Primitive
  | bool, b => .bool b
  | int, n => .int (Guest.floatOfInt n)
  | string, s => .string s

def decoder : KeyShape → Decoder
  | bool => .bool
  | int => .int
  | string => .string

/-- The guest value of a key. -/
def guest : (shape : KeyShape) → shape.Host → Guest.Value
  | bool, b => .bool b
  | int, n => .int n
  | string, s => Guest.ofText s

/-- A key as it is decoded. -/
def decoded : (shape : KeyShape) → shape.Host → Decoded
  | bool, b => .bool b
  | int, n => .int n.toInt
  | string, s => .string s

end KeyShape

/-- How values of the host are nested. -/
inductive Shape where
  | bool | int | float | string
  | list (item : Shape)
  | record (entry : Shape)
  | table (key : KeyShape) (entry : Shape)

namespace Shape

/-- The values of a shape. A record is given by its entries as they are added, a table by its pairs. -/
def Host : Shape → Type
  | bool => Bool
  | int => Int32
  | float => Float
  | string => String
  | list item => List item.Host
  | record entry => List (String × entry.Host)
  | table key entry => List (key.Host × entry.Host)

/-- The encoder of a value, as an operation on a state. -/
def operation : (shape : Shape) → shape.Host → State → Operation σ
  | bool, b, s => .encode s (.bool b)
  | int, n, s => .encode s (.int (Guest.floatOfInt n))
  | float, x, s => .encode s (.float x)
  | string, t, s => .encode s (.string t)
  | list item, hs, s =>
    .encodeTable s (.ofItems (hs.map fun h s => Client.ofOperation (item.operation h s)))
  | record entry, hs, s =>
    .encodeTable s (.ofRecord
      (hs.map (Prod.map id fun h s => Client.ofOperation (entry.operation h s))))
  | table key entry, hs, s =>
    .encodeTable s (.ofList (hs.map fun r =>
      (Client.encode (key.primitive r.1), fun s => Client.ofOperation (entry.operation r.2 s))))

def decoder : Shape → Decoder
  | bool => .bool
  | int => .int
  | float => .float
  | string => .string
  | list item => .list item.decoder
  | record entry => .table .string entry.decoder
  | table key entry => .table key.decoder entry.decoder

/-- A list has at most as many items as there are indices, and the keys of a table are distinct. -/
def Valid : (shape : Shape) → shape.Host → Prop
  | list item => fun (hs : List item.Host) => hs.length ≤ 2147483647 ∧ ∀ h ∈ hs, item.Valid h
  | record entry => fun (hs : List (String × entry.Host)) =>
      ∀ r ∈ Record.ofEntries hs, entry.Valid r.2
  | table key entry => fun (hs : List (key.Host × entry.Host)) =>
      (hs.map (·.1)).Nodup ∧ ∀ r ∈ hs, entry.Valid r.2
  | _ => fun _ => True

/-- What is decoded has the structure of a value: lists have its items in their order, tables its pairs as
they were given, and records their entries in the order of a record. -/
def Restored : (shape : Shape) → shape.Host → Decoded → Prop
  | bool, b, r => r = .bool b
  | int, n, r => r = .int n.toInt
  | float, x, r => r = .number x
  | string, t, r => r = .string t
  | list item, hs, r => ∃ rs, r = .list rs ∧ List.Forall₂ item.Restored hs rs
  | record entry, hs, r => ∃ ordered rs, Record.IsOrdered hs ordered ∧ r = .pairs rs ∧
      List.Forall₂ (fun e p => p.1 = .string e.1 ∧ entry.Restored e.2 p.2) ordered rs
  | table key entry, hs, r => ∃ rs, r = .pairs rs ∧
      List.Forall₂ (fun e p => p.1 = key.decoded e.1 ∧ entry.Restored e.2 p.2) hs rs

end Shape

/-! ### Encoding -/

theorem Guest.sight_ofText (s : String) : (Guest.ofText s).sight = .string s := by
  rw [ofText, Value.sight, Text.decode_encode]

namespace Config

/-- A primitive is encoded as the guest value that it stands for. -/
theorem encode_supplies {p : Primitive} {d : Datum} {v : Guest.Value}
    (encoded : World.encodePrimitive p = .ok d) (present : v.isNil = false)
    (stands : ∀ (w : World σ) session, w.Stands session d v) :
    Supplies (σ := σ) (fun s => .encode s p) (.exactly v) := by
  intro c s control tracked accepts
  obtain ⟨w, s', gave, advanced⟩ := World.succeed_advanced tracked accepts (.item (.value d))
  refine ⟨w, s', d, v, .step ?_, advanced, stands w _, rfl, present⟩
  have accepted := (c.world.stateViolation?_eq_none s).mpr accepts
  have step : c.step =
      { c with world := w, control := .outcome (.ok (some s') (.item (.value d))) } := by
    simp only [Config.step, control, perform, encoding, encoded, requiring, accepted, ending, gave]
  rw [step]
  exact .refl _

end Config

namespace World
variable {w : World σ} {session : Nat}

theorem encode_int (n : Int32) :
    encodePrimitive (.int (Guest.floatOfInt n)) = .ok (.int n.toInt) := by
  rw [encodePrimitive, Guest.integerOfFloat?_floatOfInt]

theorem encode_index {i : Nat} (bound : i < 2 ^ 31) :
    encodePrimitive (.int (Guest.floatOfNat i)) = .ok (.int (Int32.ofNat i).toInt) := by
  rw [encodePrimitive, Guest.integerOfFloat?_floatOfNat bound]

theorem stands_bool (b : Bool) : w.Stands session (.bool b) (.bool b) := ⟨.bool b, rfl⟩

theorem stands_int (n : Int32) : w.Stands session (.int n.toInt) (.int n) := by
  refine ⟨.int n.toInt, ?_⟩
  rw [give?, if_pos (Guest.fitsInt32_toInt n), Int32.ofInt_toInt]

theorem stands_float (x : Float) : w.Stands session (.float x) (.float x) := ⟨.float x, rfl⟩

theorem stands_string (s : String) : w.Stands session (.string s) (Guest.ofText s) := by
  refine ⟨?_, rfl⟩
  rw [Guest.sight_ofText]
  exact .string s

end World

namespace KeyShape
variable (key : KeyShape)

theorem supplies (k : key.Host) :
    Config.Supplies (σ := σ) (fun s => .encode s (key.primitive k)) (.exactly (key.guest k)) := by
  cases key with
  | bool => exact Config.encode_supplies rfl rfl fun _ _ => World.stands_bool k
  | int => exact Config.encode_supplies (World.encode_int k) rfl fun _ _ => World.stands_int k
  | string => exact Config.encode_supplies rfl rfl fun _ _ => World.stands_string k

theorem valid (k : key.Host) : (key.guest k).key? ≠ none := by
  cases key with
  | bool | int | string => exact nofun

/-- Different keys are different in the guest. -/
theorem key?_inj {k k' : key.Host} (same : (key.guest k).key? = (key.guest k').key?) : k = k' := by
  cases key with
  | bool => exact Guest.Key.bool.inj (Option.some.inj same)
  | int => exact Guest.Key.int.inj (Option.some.inj same)
  | string => exact Text.encode_inj (Guest.Key.string.inj (Option.some.inj same))

/-- A key is stored as it is given. -/
theorem normalized (k : key.Host) : (key.guest k).normalized = key.guest k := by
  cases key with
  | bool | int | string => rfl

end KeyShape

/-- The rows of a sequence: its items by their index. -/
def Config.itemRows {η : Type} (hs : List η) : List (Nat × η) := (hs.zipIdx 1).map Prod.swap

namespace Shape

/-- What the guest value of a value is to be. -/
def demand : (shape : Shape) → shape.Host → Config.Demand
  | bool, b => .exactly (.bool b)
  | int, n => .exactly (.int n)
  | float, x => .exactly (.float x)
  | string, t => .exactly (Guest.ofText t)
  | list item, hs => Config.rowsDemand (fun i => .int (Int32.ofNat i)) item.demand
      (Config.itemRows hs)
  | record entry, hs => Config.rowsDemand Guest.ofText entry.demand (Record.ofEntries hs)
  | table key entry, hs => Config.rowsDemand key.guest entry.demand hs

end Shape

namespace Config
variable {η : Type} {g : η → State → Client σ} {demand : η → Demand}

theorem mem_itemRows {hs : List η} {r : Nat × η} (mem : r ∈ itemRows hs) :
    1 ≤ r.1 ∧ r.1 ≤ hs.length ∧ r.2 ∈ hs := by
  obtain ⟨⟨h, i⟩, item, rfl⟩ := List.mem_map.mp mem
  obtain ⟨first, last, here⟩ := List.mem_zipIdx item
  exact ⟨first, by simp only [Prod.fst_swap]; omega, here ▸ List.getElem_mem _⟩

theorem itemRows_keys (hs : List η) : (itemRows hs).map (·.1) = List.range' 1 hs.length := by
  rw [itemRows, List.map_map, ← List.zipIdx_map_snd 1 hs]
  rfl

/-- Indices are different keys. -/
theorem itemRows_distinct {hs : List η} (bound : hs.length < 2 ^ 31) :
    ((itemRows hs).map fun r => (Guest.Value.int (Int32.ofNat r.1)).key?).Nodup := by
  have keys : ((List.range' 1 hs.length).map fun i => (Guest.Value.int (Int32.ofNat i)).key?).Nodup := by
    refine List.Nodup.map_on ?_ List.nodup_range'
    intro i left j right same
    rw [List.mem_range'_1] at left right
    refine Guest.Table.ofNat_inj (by omega) (by omega) ?_
    exact Guest.Key.int.inj (Option.some.inj same)
  rwa [← itemRows_keys, List.map_map] at keys

theorem sequence_supplies {hs : List η} (bound : hs.length < 2 ^ 31)
    (gives : ∀ h ∈ hs, Gives (g h) (demand h)) :
    Supplies (fun s => .encodeTable s (.ofItems (hs.map g)))
      (rowsDemand (fun i => .int (Int32.ofNat i)) demand (itemRows hs)) := by
  have encoders : Encoders.ofItems (hs.map g) =
      .ofList ((itemRows hs).map fun r => (Client.encode (.int (Guest.floatOfNat r.1)), g r.2)) := by
    rw [Encoders.ofItems, itemRows, List.zipIdx_map, List.map_map, List.map_map]
    rfl
  rw [encoders]
  refine encodeTable_supplies (f := fun i => Client.encode (.int (Guest.floatOfNat i))) ?_ ?_
  · intro r mem
    obtain ⟨positive, last, item⟩ := mem_itemRows mem
    have encoded := World.encode_index (i := r.1) (by omega)
    exact ⟨(encode_supplies encoded rfl fun _ _ => World.stands_int _).gives, gives _ item, nofun⟩
  · exact itemRows_distinct bound

theorem record_supplies {hs : List (String × η)}
    (gives : ∀ r ∈ Record.ofEntries hs, Gives (g r.2) (demand r.2)) :
    Supplies (fun s => .encodeTable s (.ofRecord (hs.map (Prod.map id g))))
      (rowsDemand Guest.ofText demand (Record.ofEntries hs)) := by
  have encoders : Encoders.ofRecord (hs.map (Prod.map id g)) =
      .ofList ((Record.ofEntries hs).map fun r => (Client.encode (.string r.1), g r.2)) := by
    rw [Encoders.ofRecord, Record.ofEntries_map, List.map_map]
    rfl
  rw [encoders]
  refine encodeTable_supplies (f := fun s => Client.encode (.string s)) ?_ ?_
  · intro r mem
    exact ⟨(encode_supplies rfl rfl fun _ _ => World.stands_string r.1).gives, gives r mem, nofun⟩
  · have inj : Function.Injective fun s => (Guest.ofText s).key? := fun _ _ same =>
      Text.encode_inj (Guest.Key.string.inj (Option.some.inj same))
    have keys := (Record.ofEntries_isOrdered hs).distinct.map inj
    rwa [List.map_map] at keys

theorem pairs_supplies {key : KeyShape} {hs : List (key.Host × η)} (distinct : (hs.map (·.1)).Nodup)
    (gives : ∀ r ∈ hs, Gives (g r.2) (demand r.2)) :
    Supplies (fun s => .encodeTable s
        (.ofList (hs.map fun r => (Client.encode (key.primitive r.1), g r.2))))
      (rowsDemand key.guest demand hs) := by
  refine encodeTable_supplies (f := fun k => Client.encode (key.primitive k)) ?_ ?_
  · intro r mem
    exact ⟨(key.supplies r.1).gives, gives r mem, key.valid r.1⟩
  · have keys := distinct.map fun _ _ => key.key?_inj
    rwa [List.map_map] at keys

end Config

namespace Shape

/-- Encoding a value ends with what is demanded. -/
theorem supplies (shape : Shape) (h : shape.Host) (valid : shape.Valid h) :
    Config.Supplies (σ := σ) (shape.operation h) (shape.demand h) := by
  induction shape with
  | bool => exact Config.encode_supplies rfl rfl fun _ _ => World.stands_bool h
  | int => exact Config.encode_supplies (World.encode_int h) rfl fun _ _ => World.stands_int h
  | float => exact Config.encode_supplies rfl rfl fun _ _ => World.stands_float h
  | string => exact Config.encode_supplies rfl rfl fun _ _ => World.stands_string h
  | list item ih =>
      exact Config.sequence_supplies (Nat.lt_succ_of_le valid.1) fun h mem =>
        (ih h (valid.2 h mem)).gives
  | record entry ih => exact Config.record_supplies fun r mem => (ih r.2 (valid r mem)).gives
  | table key entry ih =>
      exact Config.pairs_supplies (g := fun h s => Client.ofOperation (entry.operation h s)) valid.1
        fun r mem => (ih r.2 (valid.2 r mem)).gives

end Shape

/-! ### Decoding -/

theorem forall₂_chain {α β γ : Type} {R : α → β → Prop} {S : β → γ → Prop} {as : List α}
    {bs : List β} {cs : List γ} (first : List.Forall₂ R as bs) (second : List.Forall₂ S bs cs) :
    List.Forall₂ (fun a c => ∃ b, R a b ∧ S b c) as cs := by
  induction first generalizing cs with
  | nil =>
      cases second
      exact .nil
  | cons here _ ih =>
      cases second with
      | cons here' rest => exact .cons ⟨_, here, here'⟩ (ih rest)

namespace KeyShape
variable (key : KeyShape) {w : World σ} {store : Guest.Store} {session : Nat}

theorem conforms (k : key.Host) : key.decoder.Conforms store (key.guest k).sight := by
  cases key with
  | bool | int | string => exact ⟨_, rfl⟩

/-- A key is decoded as itself. -/
theorem asGiven_mirrors {k : key.Host} {r : Decoded}
    (mirrors : w.Mirrors store session key.decoder (key.guest k).sight r) :
    World.asGiven (key.guest k) r = key.decoded k := by
  cases key with
  | bool =>
      obtain ⟨b, same, rfl⟩ := mirrors
      rw [← Sight.bool.inj same]
      rfl
  | int =>
      obtain ⟨n, same, rfl⟩ := mirrors
      rw [← Sight.int.inj same]
      rfl
  | string =>
      obtain ⟨s, same, rfl⟩ := mirrors
      rw [← Sight.string.inj ((Guest.sight_ofText k).symm.trans same)]
      rfl

end KeyShape

namespace Config
variable {w : World σ} {store : Guest.Store} {session : Nat} {η : Type} {demand : η → Demand}
  {restored : η → Decoded → Prop} {decoder : Decoder} {v : Guest.Value}

/-- What meets a demand conforms to a decoder, and what mirrors it is as it should be. -/
def Reads (w : World σ) (store : Guest.Store) (session : Nat) (demand : Demand) (decoder : Decoder)
    (restored : Decoded → Prop) : Prop :=
  ∀ v, demand.meets store v → decoder.Conforms store v.sight ∧
    ∀ r, w.Mirrors store session decoder v.sight r → restored r

/-- What meets the demands of items is a sequence. -/
theorem sequence_of_meets {hs : List η} {start : Nat} {built : List (Guest.Value × Guest.Value)}
    (meets : List.Forall₂ (Meets (fun i => .int (Int32.ofNat i)) demand store)
      ((hs.zipIdx start).map Prod.swap) built) :
    built = ((built.map (·.2)).zipIdx start).map (fun (u, i) => (.int (Int32.ofNat i), u)) ∧
      List.Forall₂ (fun h u => (demand h).meets store u) hs (built.map (·.2)) := by
  induction hs generalizing start built with
  | nil =>
      cases meets
      exact ⟨rfl, .nil⟩
  | cons h rest ih =>
      cases meets with
      | @cons _ row _ others here meets =>
          obtain ⟨same, each⟩ := ih meets
          refine ⟨?_, .cons here.2 each⟩
          have key : row.1 = .int (Int32.ofNat start) := here.1
          rw [List.map_cons, List.zipIdx_cons, List.map_cons, ← same]
          exact congrArg (· :: others) (Prod.ext key rfl)

/-- A table has the items that it was built from, at their indices. -/
theorem items_of_meets {hs : List η} (bound : hs.length < 2 ^ 31)
    (meets : (rowsDemand (fun i => .int (Int32.ofNat i)) demand (itemRows hs)).meets store v) :
    ∃ t, v.sight.table? store = some t ∧ List.Forall₂ (fun h u => (demand h).meets store u) hs
      ((List.range' 1 t.length).map fun i => t.getInt (Int32.ofNat i)) := by
  obtain ⟨built, ⟨id, rfl, -, holds⟩, keyed, meets⟩ := meets
  obtain ⟨rows, each⟩ := sequence_of_meets meets
  have length : (built.map (·.2)).length = hs.length := each.length_eq.symm
  rw [rows] at holds
  have items := Guest.Table.Holds.items holds (by omega) fun u mem => by
    obtain ⟨row, inside, rfl⟩ := List.mem_map.mp mem
    exact keyed.present row inside
  exact ⟨store.table id, rfl, items ▸ each⟩

/-- A list is read item by item. -/
theorem sequence_reads {hs : List η} (bound : hs.length < 2 ^ 31)
    (reads : ∀ h ∈ hs, Reads w store session (demand h) decoder (restored h)) :
    Reads w store session (rowsDemand (fun i => .int (Int32.ofNat i)) demand (itemRows hs))
      (.list decoder) fun r => ∃ rs, r = .list rs ∧ List.Forall₂ restored hs rs := by
  intro v meets
  obtain ⟨t, found, items⟩ := items_of_meets bound meets
  have each := (List.forall₂_and_left _ _).mpr ⟨fun h mem => reads h mem, items⟩
  have conform : ∀ u ∈ (List.range' 1 t.length).map fun i => t.getInt (Int32.ofNat i),
      decoder.Conforms store u.sight :=
    ((List.forall₂_and_left _ _).mp (each.flip.imp fun u h both => ⟨(both.1 u both.2).1, both⟩)).1
  refine ⟨⟨t, found, ?_⟩, ?_⟩
  · intro i positive last
    refine conform _ (List.mem_map.mpr ⟨i, ?_, rfl⟩)
    rw [List.mem_range'_1]
    omega
  · rintro r ⟨t', rs, found', rfl, mirrors⟩
    obtain rfl : t = t' := Option.some.inj (found.symm.trans found')
    rw [← List.forall₂_map_left_iff (f := fun i => t.getInt (Int32.ofNat i))
      (R := fun u => w.Mirrors store session decoder u.sight)] at mirrors
    refine ⟨rs, rfl, (forall₂_chain each mirrors).imp ?_⟩
    rintro h r ⟨u, ⟨reads, meets⟩, mirrors⟩
    exact (reads u meets).2 r mirrors

/-- A table has the entries that it was built from, in their order. -/
theorem entries_of_meets {κ : Type} {keyOf : κ → Guest.Value} {rows : List (κ × η)}
    (meets : (rowsDemand keyOf demand rows).meets store v) :
    ∃ t, v.sight.table? store = some t ∧ List.Forall₂ (fun r e => e.key = (keyOf r.1).normalized ∧
      e.given = keyOf r.1 ∧ (demand r.2).meets store e.value) rows t.entries := by
  obtain ⟨built, ⟨id, rfl, -, holds⟩, keyed, meets⟩ := meets
  refine ⟨store.table id, rfl, (forall₂_chain meets (holds.entries keyed).flip).imp ?_⟩
  rintro r e ⟨row, ⟨key, met⟩, stored, given, value⟩
  exact ⟨key ▸ stored, key ▸ given, value ▸ met⟩

/-- A table is read entry by entry. -/
theorem pairs_reads {key : KeyShape} (hs : List (key.Host × η))
    (reads : ∀ r ∈ hs, Reads w store session (demand r.2) decoder (restored r.2)) :
    Reads w store session (rowsDemand key.guest demand hs) (.table key.decoder decoder)
      fun r => ∃ rs, r = .pairs rs ∧
        List.Forall₂ (fun e p => p.1 = key.decoded e.1 ∧ restored e.2 p.2) hs rs := by
  intro v meets
  obtain ⟨t, found, entries⟩ := entries_of_meets meets
  have each := (List.forall₂_and_left _ _).mpr ⟨fun r mem => reads r mem, entries⟩
  have conform : ∀ e ∈ t.entries, key.decoder.Conforms store e.key.sight ∧
      decoder.Conforms store e.value.sight := by
    refine ((List.forall₂_and_left _ _).mp (each.flip.imp fun e r both => ⟨?_, both⟩)).1
    obtain ⟨reads, stored, -, meets⟩ := both
    rw [stored, key.normalized]
    exact ⟨key.conforms r.1, (reads e.value meets).1⟩
  refine ⟨⟨t, found, conform⟩, ?_⟩
  rintro r ⟨t', rs, found', rfl, mirrors⟩
  obtain rfl : t = t' := Option.some.inj (found.symm.trans found')
  refine ⟨rs, rfl, (forall₂_chain each mirrors).imp ?_⟩
  rintro r p ⟨e, ⟨reads, stored, given, meets⟩, ⟨k, mirrored, same⟩, value⟩
  rw [stored, key.normalized] at mirrored
  exact ⟨by rw [same, given, key.asGiven_mirrors mirrored], (reads e.value meets).2 p.2 value⟩

end Config

namespace Shape
variable {store : Guest.Store}

/-- What is demanded for a value is decoded to the value. -/
theorem reads (shape : Shape) (w : World σ) (session : Nat) (h : shape.Host) (valid : shape.Valid h) :
    Config.Reads w store session (shape.demand h) shape.decoder (shape.Restored h) := by
  induction shape with
  | bool =>
      rintro v ⟨rfl, -⟩
      refine ⟨⟨h, rfl⟩, ?_⟩
      rintro r ⟨b, same, rfl⟩
      rw [← Sight.bool.inj same]
      rfl
  | int =>
      rintro v ⟨rfl, -⟩
      refine ⟨⟨_, rfl⟩, ?_⟩
      rintro r ⟨n, same, rfl⟩
      rw [← Sight.int.inj same]
      rfl
  | float =>
      rintro v ⟨rfl, -⟩
      refine ⟨⟨h, rfl⟩, ?_⟩
      rintro r ⟨x, same, rfl⟩
      rw [← Sight.float.inj same]
      rfl
  | string =>
      rintro v ⟨rfl, -⟩
      refine ⟨⟨_, rfl⟩, ?_⟩
      rintro r ⟨s, same, rfl⟩
      rw [← Sight.string.inj ((Guest.sight_ofText h).symm.trans same)]
      rfl
  | list item ih =>
      exact Config.sequence_reads (Nat.lt_succ_of_le valid.1) fun h mem => ih h (valid.2 h mem)
  | record entry ih =>
      intro v meets
      obtain ⟨conforms, restored⟩ := Config.pairs_reads
        (show List (KeyShape.string.Host × entry.Host) from Record.ofEntries h)
        (fun r mem => ih r.2 (valid r mem)) v meets
      refine ⟨conforms, fun r mirrors => ?_⟩
      obtain ⟨rs, rfl, each⟩ := restored r mirrors
      exact ⟨_, rs, Record.ofEntries_isOrdered _, rfl, each⟩
  | table key entry ih => exact Config.pairs_reads h fun r mem => ih r.2 (valid.2 r mem)

end Shape

namespace Config
variable {c : Config σ}

/-- Encoding a value against a current state succeeds, however deep its structure is, and decoding what it
gave restores that structure. -/
theorem decode_undoes_encode (reachable : Reachable c) (shape : Shape) {h : shape.Host}
    (valid : shape.Valid h) {s : State} (control : c.control = .perform (shape.operation h s))
    (current : c.world.stateViolation? s = none) :
    ∃ w s' v, Leads c { c with world := w, control := .outcome (.ok (some s') (.item (.value v))) } ∧
      s'.session = s.session ∧ w.stateViolation? s' = none ∧
      ∀ d : Config σ, d.world = w → d.control = .perform (.decode v shape.decoder) →
        ∃ r, d.step.control = .outcome (.ok none (.decoded r)) ∧ shape.Restored h r := by
  obtain ⟨made, recorded⟩ := reachable.recorded
  have accepts := (c.world.stateViolation?_eq_none s).mp current
  obtain ⟨w, s', v, u, leads, advanced, stands, meets⟩ :=
    shape.supplies h valid c s control ⟨made, recorded.sound⟩ accepts
  refine ⟨w, s', v, leads, advanced.session, (w.stateViolation?_eq_none s').mpr advanced.accepts, ?_⟩
  rintro d rfl asked
  obtain ⟨conforms, restored⟩ :=
    shape.reads (World.decodeWith shape.decoder d.world v).1 s.session h valid u meets
  have judged := (World.decodeWith_decodes (σ := σ) (d.world.machine s.session).store s.session
    shape.decoder).judged d.world v u.sight advanced.tracked rfl stands.shows
  have step : d.step = d.ending (d.world.decode v shape.decoder) := by
    simp only [Config.step, asked, perform]
  rw [step]
  simp only [ending, World.decode]
  generalize World.decodeWith shape.decoder d.world v = result at restored judged
  cases judged with
  | accepts _ mirrors => exact ⟨_, rfl, restored _ mirrors⟩
  | refuses offends => exact absurd conforms offends.not_conforms

/-- Lists of strings under integers, one of them empty. -/
def listsByNumber : List (Int32 × List String) := [(2, ["b", "a"]), (1, [])]

/-- The lists are encoded, and decoded again in the order in which they were given. -/
theorem listsByNumber_restored :
    let c := opened fun s => [Shape.operation (.table .int (.list .string)) listsByNumber s]
    ∃ w s' v, Leads c { c with world := w, control := .outcome (.ok (some s') (.item (.value v))) } ∧
      ∀ d : Config Unit, d.world = w → d.control = .perform (.decode v (.table .int (.list .string))) →
        d.step.control = .outcome (.ok none (.decoded (.pairs
          [(.int 2, .list [.string "b", .string "a"]), (.int 1, .list [])]))) := by
  intro c
  have distinct : (listsByNumber.map (·.1)).Nodup := by decide
  have short : ∀ r ∈ listsByNumber, r.2.length ≤ 2147483647 := by decide
  have valid : Shape.Valid (.table .int (.list .string)) listsByNumber :=
    ⟨distinct, fun r mem => ⟨short r mem, fun _ _ => trivial⟩⟩
  obtain ⟨w, s', v, leads, -, -, decodes⟩ := decode_undoes_encode (c := c) (opened_reachable _)
    (.table .int (.list .string)) valid (s := ⟨0, 0⟩) rfl rfl
  refine ⟨w, s', v, leads, fun d world control => ?_⟩
  obtain ⟨r, gave, rs, rfl, pairs⟩ := decodes d world control
  rw [gave]
  cases pairs with
  | @cons _ p _ ps first pairs =>
      cases pairs with
      | @cons _ q _ qs second none =>
          cases none
          obtain ⟨key, xs, list, items⟩ := first
          obtain ⟨key', ys, list', empty⟩ := second
          cases empty
          cases items with
          | @cons _ x _ xs b items =>
              cases items with
              | @cons _ y _ ys a none =>
                  cases none
                  obtain rfl : x = .string "b" := b
                  obtain rfl : y = .string "a" := a
                  have first : p = (.int 2, .list [.string "b", .string "a"]) := Prod.ext key list
                  have second : q = (.int 1, .list []) := Prod.ext key' list'
                  rw [first, second]

end Config

end LuaHost
