import LuaHost.Proofs.Decoders
import LuaHost.Proofs.Encoders
import LuaHost.Proofs.InsertionOrder
import LuaHost.Proofs.RoundTrip
/-!
Tables that encoders of the host build. The encoders are any host code; what counts is what they end with,
one after the other, and each goes on with the state of the one before it. If keys and values are alive when
the last has ended, the table that is made has what the rows come to in the order of insertion, and decoding
it shows that. A key that is nil or NaN ends the whole before a table is made.
-/

namespace LuaHost

/-- A value that the host may use as the key of a table. -/
structure Datum.IsKey (d : Datum) : Prop where
  present : d ≠ .nil
  number : ∀ x, d = .float x → x.isNaN = false

namespace Config
variable {σ : Type}

theorem isInvalidKey_iff (d : Datum) : isInvalidKey (.value d) = false ↔ d.IsKey := by
  constructor
  · intro valid
    refine ⟨?_, ?_⟩
    · rintro rfl
      cases valid
    · rintro x rfl
      exact valid
  · intro key
    cases d with
    | nil => exact absurd rfl key.present
    | float x => exact key.number x rfl
    | bool | int | string | composite => rfl

end Config

namespace World
variable {σ : Type} {w : World σ} {session : Nat} {d : Datum} {v : Guest.Value}

/-- What the host may use as a key, tables of the guest accept. -/
theorem Stands.key? (stands : w.Stands session d v) (key : d.IsKey) : v.key? ≠ none := by
  obtain ⟨shows, given⟩ := stands
  generalize seen : v.sight = x at shows
  cases shows with
  | nil => exact absurd rfl key.present
  | float x =>
      obtain rfl := Option.some.inj given
      rw [Guest.Value.key?, key.number x rfl]
      cases Guest.integerOfFloat? x <;> exact Option.some_ne_none _
  | bool | string =>
      obtain rfl := Option.some.inj given
      exact Option.some_ne_none _
  | int n =>
      rw [give?] at given
      split at given
      · obtain rfl := Option.some.inj given
        exact Option.some_ne_none _
      · cases given
  | object =>
      cases v with
      | nil | bool | int | float | string => cases seen
      | table | closure | builtin | host | userdata | light | thread => exact Option.some_ne_none _

end World

namespace Config
variable {σ : Type}

/-- How far the encoders of a table have come: the keys and values so far, in order, and the encoders to
come. -/
structure Gathering (σ : Type) where
  world : World σ
  state : State
  done : List (Datum × Datum)
  rest : Encoders σ

def asItems (e : Datum × Datum) : Item × Item := (.value e.1, .value e.2)

/-- The table that is being built from a state. -/
def Gathering.table (p : Gathering σ) (origin : State) : TableInProgress σ :=
  ⟨origin, (p.done.map asItems).reverse, p.rest⟩

/-- What waits for the encoder of the next key. -/
def Gathering.awaitsKey (p : Gathering σ) (origin : State) (value : State → Client σ) (rest : Encoders σ) :
    Pending σ :=
  .key ({ p with rest }.table origin) value

/-- What waits for the encoder of the value to a key. -/
def Gathering.awaitsValue (p : Gathering σ) (origin : State) (k : Datum) (rest : Encoders σ) : Pending σ :=
  .value ({ p with rest }.table origin) (.value k)

/-- Encoders end one after the other with keys and values, above what waits for the table. -/
inductive Encodes (origin : State) (T : List (Pending σ)) : Gathering σ → Gathering σ → Prop
  | refl (p : Gathering σ) : Encodes origin T p p
  | entry {p q : Gathering σ} {key value : State → Client σ} {rest : Encoders σ} {w₁ w₂ : World σ}
      {s₁ s₂ : State} {k v : Datum} (next : p.rest = .cons key value rest)
      (keyed : Leads ⟨p.world, .client (key p.state), p.awaitsKey origin value rest :: T⟩
        ⟨w₁, .client (.done s₁ [.value k]), p.awaitsKey origin value rest :: T⟩)
      (valued : Leads ⟨w₁, .client (value s₁), p.awaitsValue origin k rest :: T⟩
        ⟨w₂, .client (.done s₂ [.value v]), p.awaitsValue origin k rest :: T⟩)
      (others : Encodes origin T ⟨w₂, s₂, p.done ++ [(k, v)], rest⟩ q) : Encodes origin T p q

variable {origin : State} {T : List (Pending σ)} {p q : Gathering σ} {c : Config σ}

/-- Keys and values that are there stay. -/
theorem Encodes.done_prefix (encodes : Encodes origin T p q) : p.done <+: q.done := by
  induction encodes with
  | refl => exact List.prefix_refl _
  | entry _ _ _ _ ih => exact (List.prefix_append _ _).trans ih

/-- The encoder of the next key is run. -/
theorem nextEntry_key {key value : State → Client σ} {rest : Encoders σ} (w : World σ)
    (control : Control σ) (next : p.rest = .cons key value rest) :
    nextEntry ⟨w, control, T⟩ (p.table origin) p.state =
      ⟨w, .client (key p.state), p.awaitsKey origin value rest :: T⟩ := by
  simp only [nextEntry, Gathering.table, next]
  rfl

/-- After an entry the next one has its turn. -/
theorem step_value {w : World σ} {s : State} {k v : Datum} {rest : Encoders σ} :
    Config.step ⟨w, .client (.done s [.value v]), p.awaitsValue origin k rest :: T⟩ =
      nextEntry ⟨w, .client (.done s [.value v]), T⟩
        (Gathering.table ⟨w, s, p.done ++ [(k, v)], rest⟩ origin) s := by
  simp only [Gathering.table, List.map_append, List.reverse_append]
  rfl

/-- The encoders are run one after the other while the keys are valid. -/
theorem Encodes.leads (encodes : Encodes origin T p q) (reachable : Reachable c)
    (valid : ∀ e ∈ q.done, e.1.IsKey) (tracked : p.world.Tracked) {control : Control σ}
    (begun : Leads c (nextEntry ⟨p.world, control, T⟩ (p.table origin) p.state)) :
    q.world.Tracked ∧
      ∃ control, Leads c (nextEntry ⟨q.world, control, T⟩ (q.table origin) q.state) := by
  induction encodes generalizing control with
  | refl => exact ⟨tracked, control, begun⟩
  | @entry p q key value rest w₁ w₂ s₁ s₂ k v next keyed valued others ih =>
      have mem : (k, v) ∈ q.done := others.done_prefix.subset (by simp)
      have got : Config.step ⟨w₁, .client (.done s₁ [.value k]), p.awaitsKey origin value rest :: T⟩ =
          ⟨w₁, .client (value s₁), p.awaitsValue origin k rest :: T⟩ :=
        step_key ((isInvalidKey_iff k).mpr (valid _ mem))
      rw [nextEntry_key p.world control next] at begun
      have keyed := begun.trans keyed
      have turned : Leads _ _ := keyed.trans ⟨1, got⟩
      have valued := turned.trans valued
      exact ih valid (valued.reachable reachable).tracked (valued.trans ⟨1, step_value⟩)

/-- A pair that is decoded shows a row. -/
def PairShows (w : World σ) (session : Nat) (r : Guest.Value × Guest.Value) (pair : Decoded × Decoded) :
    Prop :=
  ∃ key value, pair = (.value key, .value value) ∧ w.Shows session key r.1.sight ∧
    w.Shows session value r.2.sight

/-- A table that is read without expectations is read row by row, in the order of its keys. -/
theorem decode_rows {w : World σ} {session : Nat} {d : Datum} {id : Nat} (tracked : w.Tracked)
    (stands : w.Stands session d (.table id)) (asked : c.control = .perform (.decode d (.table .value .value)))
    (same : c.world = w) :
    ∃ pairs, c.step.control = .outcome (.ok none (.decoded (.pairs pairs))) ∧
      List.Forall₂ (PairShows c.step.world session) ((w.machine session).store.table id).toList pairs := by
  subst same
  have judged := (World.decodeWith_decodes (σ := σ) (c.world.machine session).store session
    (.table .value .value)).judged c.world d (.object .table (.table id)) tracked rfl stands.shows
  have step : c.step = c.ending (c.world.decode d (.table .value .value)) := by
    simp only [Config.step, asked, perform]
  rw [step]
  simp only [ending, World.decode]
  generalize World.decodeWith (.table .value .value) c.world d = result at judged
  cases judged with
  | @accepts w r conforms mirrors =>
      obtain ⟨t, pairs, found, rfl, each⟩ := mirrors
      obtain rfl := Option.some.inj found
      refine ⟨pairs, rfl, ?_⟩
      rw [Guest.Table.toList, List.forall₂_map_left_iff]
      refine each.imp ?_
      rintro e ⟨k, v⟩ ⟨⟨_, ⟨key, keyShown, rfl⟩, same⟩, value, valueShown, rfl⟩
      exact ⟨key, value, Prod.ext same rfl, keyShown, valueShown⟩
  | refuses offends =>
      exact absurd ⟨_, rfl, fun _ _ => ⟨trivial, trivial⟩⟩ offends.not_conforms

/-- The entries of a table are gathered from the state that its encoding starts with. -/
structure Gathers (c : Config σ) (s : State) (q : Gathering σ) : Prop where
  reachable : Reachable c
  current : c.world.stateViolation? s = none
  encodes : ∃ encoders, c.control = .perform (.encodeTable s encoders) ∧
    Encodes s c.stack ⟨c.world, s, [], encoders⟩ q
  valid : ∀ e ∈ q.done, e.1.IsKey

theorem Gathers.leads {s : State} (gathers : Gathers c s q) : q.world.Tracked ∧
    ∃ control, Leads c (nextEntry ⟨q.world, control, c.stack⟩ (q.table s) q.state) := by
  obtain ⟨encoders, control, encodes⟩ := gathers.encodes
  have begun : c.step =
      nextEntry ⟨c.world, c.control, c.stack⟩ (Gathering.table ⟨c.world, s, [], encoders⟩ s) s := by
    simp only [Config.step, control, perform, requiring, gathers.current]
    rfl
  exact encodes.leads gathers.reachable gathers.valid gathers.reachable.tracked ⟨1, begun⟩

/-- When all entries are there, a new table is made of their rows. -/
theorem Gathers.built {s : State} (gathers : Gathers c s q) (complete : q.rest = .nil)
    (accepted : q.world.stateViolation? q.state = none) {rows : List (Guest.Value × Guest.Value)}
    (stands : List.Forall₂ (fun e r => q.world.Stands q.state.session e.1 r.1 ∧
      q.world.Stands q.state.session e.2 r.2) q.done rows) :
    ∃ w s' d id serial, Leads c { c with world := w, control := .outcome (.ok (some s') (.item (.value d))) } ∧
      World.Advanced q.world w q.state s' ∧ w.Stands q.state.session d (.table id) ∧
      (q.world.machine q.state.session).store.tables.size ≤ id ∧
      id < (w.machine q.state.session).store.tables.size ∧
      (w.machine q.state.session).store.table id = { tableOf rows with serial } := by
  obtain ⟨tracked, control, leads⟩ := gathers.leads
  have ended : nextEntry ⟨q.world, control, c.stack⟩ (q.table s) q.state =
      building ⟨q.world, control, c.stack⟩ (q.table s) q.state := by
    simp only [nextEntry, Gathering.table, complete]
  have stood : List.Forall₂ (RowStands q.world q.state.session) (q.table s).done.reverse rows := by
    rw [Gathering.table, List.reverse_reverse, List.forall₂_map_left_iff]
    exact stands
  obtain ⟨w, s', d, id, serial, made, built⟩ :=
    building_rows (c := ⟨q.world, control, c.stack⟩) tracked
      ((q.world.stateViolation?_eq_none q.state).mp accepted) stood
  rw [ended, made] at leads
  exact ⟨w, s', d, id, serial, leads, built⟩

/-- The encoder of a key is run above what waits for it. -/
theorem Gathers.key {s : State} (gathers : Gathers c s q) {key value : State → Client σ} {rest : Encoders σ}
    (next : q.rest = .cons key value rest) :
    Leads c ⟨q.world, .client (key q.state), q.awaitsKey s value rest :: c.stack⟩ := by
  obtain ⟨-, control, leads⟩ := gathers.leads
  rwa [nextEntry_key q.world control next] at leads

/-- What the encoder of a key throws is thrown. -/
theorem Gathers.throws {s : State} (gathers : Gathers c s q) {key value : State → Client σ} {rest : Encoders σ}
    (next : q.rest = .cons key value rest) {w : World σ} {t : Thrown}
    (threw : Leads ⟨q.world, .client (key q.state), q.awaitsKey s value rest :: c.stack⟩
      ⟨w, .client (.throw t), q.awaitsKey s value rest :: c.stack⟩) :
    Leads c { c with world := w.restore s, control := .outcome (.threw t) } :=
  ((gathers.key next).trans threw).trans ⟨1, rfl⟩

/-- Encoding the entries of a table that come to live keys and values succeeds, and decoding what it gives yields
what the rows come to in the order of insertion. An entry whose key is nil or NaN makes it throw instead, and
the machines are as the encoder of that key has left them. -/
theorem encodeTable_folds (reachable : Reachable c) {s : State} {encoders : Encoders σ}
    (control : c.control = .perform (.encodeTable s encoders))
    (current : c.world.stateViolation? s = none)
    (encodes : Encodes s c.stack ⟨c.world, s, [], encoders⟩ p) (valid : ∀ e ∈ p.done, e.1.IsKey) :
    (∀ rows, p.rest = .nil → p.world.stateViolation? p.state = none →
      List.Forall₂ (fun e r => p.world.Stands p.state.session e.1 r.1 ∧
        p.world.Stands p.state.session e.2 r.2) p.done rows →
      ∃ w s' d, Leads c { c with world := w, control := .outcome (.ok (some s') (.item (.value d))) } ∧
        s'.session = p.state.session ∧ w.stateViolation? s' = none ∧
        ∀ c' : Config σ, c'.world = w → c'.control = .perform (.decode d (.table .value .value)) →
          ∃ pairs, c'.step.control = .outcome (.ok none (.decoded (.pairs pairs))) ∧
            List.Forall₂ (PairShows c'.step.world p.state.session) (Guest.Rows.folded rows) pairs) ∧
    ∀ key value rest w s' k, p.rest = .cons key value rest →
      Leads ⟨p.world, .client (key p.state), p.awaitsKey s value rest :: c.stack⟩
        ⟨w, .client (.done s' [.value k]), p.awaitsKey s value rest :: c.stack⟩ → ¬ k.IsKey →
      Leads c { c with
          world := w.restore s
          control := .outcome (.threw (.exception
            (.ofMessage .typeError ("Invalid table key: " ++ k.describe)))) } ∧
        ∀ session, (w.restore s).machine session = w.machine session := by
  have gathers : Gathers c s p := ⟨reachable, current, ⟨encoders, control, encodes⟩, valid⟩
  constructor
  · intro rows complete accepted stands
    obtain ⟨w, s', d, id, serial, leads, advanced, shown, -, -, found⟩ := gathers.built complete accepted stands
    refine ⟨w, s', d, leads, advanced.session, (w.stateViolation?_eq_none s').mpr advanced.accepts, ?_⟩
    intro c' world asked
    have keys : ∀ r ∈ rows, r.1.key? ≠ none :=
      ((List.forall₂_and_left _ _).mp (((List.forall₂_and_left _ _).mpr ⟨valid, stands⟩).flip.imp
        fun r e both => ⟨both.2.1.key? both.1, both⟩)).1
    obtain ⟨pairs, gave, each⟩ := decode_rows advanced.tracked shown asked world
    rw [found] at each
    rw [← Guest.Table.toList_tableOf keys]
    exact ⟨pairs, gave, each⟩
  · intro key value rest w s' k next keyed invalid
    have refused : isInvalidKey (.value k) = true := by
      rw [← Bool.not_eq_false, isInvalidKey_iff]
      exact invalid
    have thrown : Config.step ⟨w, .client (.done s' [.value k]), p.awaitsKey s value rest :: c.stack⟩ =
        ⟨w.restore s, .outcome (.threw (.exception
          (.ofMessage .typeError ("Invalid table key: " ++ k.describe)))), c.stack⟩ := by
      have got : Config.step ⟨w, .client (.done s' [.value k]), p.awaitsKey s value rest :: c.stack⟩ =
          gotKey ⟨w, .client (.done s' [.value k]), c.stack⟩ ({ p with rest }.table s) value s'
            (.value k) := rfl
      rw [got, gotKey, if_pos refused]
      rfl
    exact ⟨((gathers.key next).trans keyed).trans ⟨1, thrown⟩, fun _ => rfl⟩

/-! ### Tables of primitives -/

/-- Encoders for the entries of a table of primitives. -/
def primitives (rows : List (Primitive × Primitive)) : List ((State → Client σ) × (State → Client σ)) :=
  rows.map fun r => (Client.encode r.1, Client.encode r.2)

theorem encode_leads {w : World σ} {s : State} {x : Primitive} {d : Datum}
    (encoded : World.encodePrimitive x = .ok d) (tracked : w.Tracked) (accepts : w.standing.Accepts s)
    (T : List (Pending σ)) : ∃ w' s', World.Advanced w w' s s' ∧
      Leads ⟨w, .client (Client.encode x s), T⟩ ⟨w', .client (.done s' [.value d]), T⟩ := by
  obtain ⟨w', s', gave, advanced⟩ := World.succeed_advanced tracked accepts (.item (.value d))
  refine ⟨w', s', advanced, 3, ?_⟩
  have accepted := (w.stateViolation?_eq_none s).mpr accepts
  have performed : Config.step ⟨w, .perform (.encode s x), .perform Client.ofOutcome :: T⟩ =
      ⟨w', .outcome (.ok (some s') (.item (.value d))), .perform Client.ofOutcome :: T⟩ := by
    simp only [Config.step, perform, encoding, encoded, requiring, accepted, ending, gave]
  calc step^[3] ⟨w, .client (Client.encode x s), T⟩
      = step^[2] ⟨w, .perform (.encode s x), .perform Client.ofOutcome :: T⟩ := rfl
    _ = step^[1] ⟨w', .outcome (.ok (some s') (.item (.value d))), .perform Client.ofOutcome :: T⟩ :=
        congrArg step^[1] performed
    _ = ⟨w', .client (.done s' [.value d]), T⟩ := rfl

theorem encode_throws {w : World σ} {x : Primitive} {t : Thrown} (refused : World.encodePrimitive x = .error t)
    (s : State) (T : List (Pending σ)) :
    Leads ⟨w, .client (Client.encode x s), T⟩ ⟨w, .client (.throw t), T⟩ := by
  have performed : Config.step ⟨w, .perform (.encode s x), .perform Client.ofOutcome :: T⟩ =
      ⟨w, .outcome (.threw t), .perform Client.ofOutcome :: T⟩ := by
    simp only [Config.step, perform, encoding, refused]
  refine ⟨3, ?_⟩
  calc step^[3] ⟨w, .client (Client.encode x s), T⟩
      = step^[2] ⟨w, .perform (.encode s x), .perform Client.ofOutcome :: T⟩ := rfl
    _ = step^[1] ⟨w, .outcome (.threw t), .perform Client.ofOutcome :: T⟩ := congrArg step^[1] performed
    _ = ⟨w, .client (.throw t), T⟩ := rfl

/-- Primitives are encoded one after the other. -/
theorem encodes_primitives {rows : List (Primitive × Primitive)} {data : List (Datum × Datum)}
    (encoded : List.Forall₂ (fun r e => World.encodePrimitive r.1 = .ok e.1 ∧
      World.encodePrimitive r.2 = .ok e.2) rows data)
    (rest : List ((State → Client σ) × (State → Client σ))) (origin : State) (T : List (Pending σ))
    (done : List (Datum × Datum)) {w : World σ} {s : State} (tracked : w.Tracked)
    (accepts : w.standing.Accepts s) :
    ∃ w' s', World.Advanced w w' s s' ∧
      Encodes origin T ⟨w, s, done, .ofList (primitives rows ++ rest)⟩
        ⟨w', s', done ++ data, .ofList rest⟩ := by
  induction encoded generalizing w s done with
  | nil =>
      refine ⟨w, s, ⟨tracked, .refl w, accepts, rfl⟩, ?_⟩
      rw [List.append_nil]
      exact .refl _
  | @cons r e rows data here _ ih =>
      obtain ⟨w₁, s₁, advanced, keyed⟩ := encode_leads here.1 tracked accepts _
      obtain ⟨w₂, s₂, advanced', valued⟩ := encode_leads here.2 advanced.tracked advanced.accepts _
      obtain ⟨w', s', others, encodes⟩ := ih (done ++ [e]) advanced'.tracked advanced'.accepts
      rw [List.append_assoc] at encodes
      exact ⟨w', s', (advanced.trans advanced').trans others, .entry rfl keyed valued encodes⟩

/-- A key that is removed and given again, and one that is given as a float and as an integer. -/
def rewritten : List (Primitive × Primitive) :=
  [(.string "x", .bool false), (.float (Guest.floatOfInt 2), .string "two"), (.string "x", .nil),
    (.int (Guest.floatOfInt 2), .bool true), (.string "x", .string "again")]

def rewrittenData : List (Datum × Datum) :=
  [(.string "x", .bool false), (.float (Guest.floatOfInt 2), .string "two"), (.string "x", .nil),
    (.int 2, .bool true), (.string "x", .string "again")]

def rewrittenRows : List (Guest.Value × Guest.Value) :=
  [(Guest.ofText "x", .bool false), (.float (Guest.floatOfInt 2), Guest.ofText "two"),
    (Guest.ofText "x", .nil), (.int 2, .bool true), (Guest.ofText "x", Guest.ofText "again")]

theorem rewrittenRows_folded : Guest.Rows.folded rewrittenRows =
    [(.int 2, .bool true), (Guest.ofText "x", Guest.ofText "again")] := by
  have whole := Guest.integerOfFloat?_floatOfInt 2
  simp [Guest.Rows.folded, Guest.Rows.put, rewrittenRows, Guest.Value.key?, Guest.Value.isNil,
    Guest.Value.normalized, Guest.ofText, whole]

/-- The float is the integer two and keeps its place, and the key that was removed comes last; a key that is nil
is refused. -/
theorem rewritten_restored :
    (let c : Config Unit := opened fun s => [.encodeTable s (.ofList (primitives rewritten))]
      ∃ w s' d, Leads c { c with world := w, control := .outcome (.ok (some s') (.item (.value d))) } ∧
        ∀ c' : Config Unit, c'.world = w → c'.control = .perform (.decode d (.table .value .value)) →
          c'.step.control = .outcome (.ok none (.decoded (.pairs
            [(.value (.int 2), .value (.bool true)),
              (.value (.string "x"), .value (.string "again"))])))) ∧
    (let c : Config Unit := opened fun s =>
        [.encodeTable s (.ofList (primitives (rewritten ++ [(.nil, .bool true)])))]
      ∃ w : World Unit, Leads c { c with
        world := w.restore ⟨0, 0⟩
        control := .outcome (.threw (.exception (.ofMessage .typeError "Invalid table key: nil"))) }) := by
  have encoded : List.Forall₂ (fun r e => World.encodePrimitive r.1 = .ok e.1 ∧
      World.encodePrimitive r.2 = .ok e.2) rewritten rewrittenData := by
    refine .cons ⟨rfl, rfl⟩ (.cons ⟨rfl, rfl⟩ (.cons ⟨rfl, rfl⟩ (.cons ⟨?_, rfl⟩ (.cons ⟨rfl, rfl⟩ .nil))))
    exact World.encode_int 2
  have valid : ∀ e ∈ rewrittenData, e.1.IsKey := by
    intro e mem
    rw [← isInvalidKey_iff]
    fin_cases mem
    · rfl
    · decide +kernel
    · rfl
    · rfl
    · rfl
  constructor
  · intro c
    have reachable : Reachable c := opened_reachable _
    have accepts := (c.world.stateViolation?_eq_none ⟨0, 0⟩).mp rfl
    obtain ⟨w, s', advanced, encodes⟩ :=
      encodes_primitives encoded [] ⟨0, 0⟩ c.stack [] reachable.tracked accepts
    rw [List.append_nil] at encodes
    obtain ⟨folds, -⟩ := encodeTable_folds reachable (s := ⟨0, 0⟩) rfl rfl encodes valid
    obtain ⟨w', s'', d, leads, -, -, decodes⟩ := folds rewrittenRows rfl
      ((w.stateViolation?_eq_none s').mpr advanced.accepts)
      (.cons ⟨World.stands_string _, World.stands_bool _⟩
        (.cons ⟨World.stands_float _, World.stands_string _⟩
          (.cons ⟨World.stands_string _, ⟨.nil, rfl⟩⟩
            (.cons ⟨World.stands_int 2, World.stands_bool _⟩
              (.cons ⟨World.stands_string _, World.stands_string _⟩ .nil)))))
    refine ⟨w', s'', d, leads, fun c' world asked => ?_⟩
    obtain ⟨pairs, gave, each⟩ := decodes c' world asked
    rw [rewrittenRows_folded] at each
    rw [gave]
    cases each with
    | @cons _ first _ _ number each =>
        cases each with
        | @cons _ second _ _ text each =>
            cases each
            obtain ⟨key, value, rfl, two, yes⟩ := number
            obtain ⟨key', value', rfl, x, again⟩ := text
            rw [Guest.sight_ofText] at x again
            cases two
            cases yes
            cases x
            cases again
            rfl
  · intro c
    have reachable : Reachable c := opened_reachable _
    have accepts := (c.world.stateViolation?_eq_none ⟨0, 0⟩).mp rfl
    obtain ⟨w, s', advanced, encodes⟩ := encodes_primitives encoded (primitives [(.nil, .bool true)])
      ⟨0, 0⟩ c.stack [] reachable.tracked accepts
    obtain ⟨-, refuses⟩ := encodeTable_folds reachable (s := ⟨0, 0⟩) rfl rfl encodes valid
    obtain ⟨w', s'', -, keyed⟩ := encode_leads (x := .nil) rfl advanced.tracked advanced.accepts _
    exact ⟨w', (refuses _ _ _ w' s'' .nil rfl keyed fun key => key.present rfl).1⟩

end Config

end LuaHost
