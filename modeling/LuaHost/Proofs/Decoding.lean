import LuaHost.Proofs.RoundTrip
/-!
What comes of decoding, in whatever host code comes to. The guest does not notice; the host is given what
mirrors the value, or is told where the value offends first.
-/

namespace LuaHost

namespace Config
variable {σ : Type} {c : Config σ}

/-- Decoding leaves the guest and the heads of all sessions alone. It gives what mirrors a value that
conforms; for any other value it fails, and says where the value offends first: by which path, what was
expected there, and what was found. -/
theorem decode_outcome (reachable : Reachable c) {d : Datum} {decoder : Decoder} {session : Nat}
    {x : Sight} (control : c.control = .perform (.decode d decoder))
    (shows : c.world.Shows session d x) :
    (∀ other, ∃ slots, c.step.world.machine other = { c.world.machine other with slots }) ∧
    (∀ other, c.step.world.head other = c.world.head other ∧
      (c.step.world.ledger other).closed = (c.world.ledger other).closed) ∧
    c.step.stack = c.stack ∧
    (decoder.Conforms (c.world.machine session).store x → ∃ r,
      c.step.control = .outcome (.ok none (.decoded r)) ∧
      c.step.world.Mirrors (c.world.machine session).store session decoder x r) ∧
    (¬ decoder.Conforms (c.world.machine session).store x → ∃ f path part y,
      c.step.control = .outcome (.err f) ∧ f.fault = .decode part.expected y.kind path ∧
      decoder.Offends (c.world.machine session).store x path part y ∧
      ∀ path' part' y', decoder.Offends (c.world.machine session).store x path' part' y' →
        path' = path ∧ part' = part ∧ y' = y) := by
  obtain ⟨made, recorded⟩ := reachable.recorded
  have tracked : c.world.Tracked := ⟨made, recorded.sound⟩
  have decodes := World.decodeWith_decodes (σ := σ) (c.world.machine session).store session decoder
  have glances := (decodes.looks c.world d tracked).2
  have judged := decodes.judged c.world d x tracked rfl shows
  have step : c.step = c.ending (c.world.decode d decoder) := by
    simp only [Config.step, control, perform]
  rw [step]
  simp only [ending, World.decode]
  generalize World.decodeWith decoder c.world d = result at glances judged
  have stays : ∀ w : World σ, w.standing = c.world.standing → ∀ other,
      w.head other = c.world.head other ∧
        (w.ledger other).closed = (c.world.ledger other).closed := by
    intro w same other
    rw [← World.standing_head, ← World.standing_head, World.closed_eq, World.closed_eq, same]
    exact ⟨rfl, rfl⟩
  cases judged with
  | accepts conforms mirrors =>
      refine ⟨glances.machine, stays _ glances.standing, trivial, fun _ => ⟨_, rfl, mirrors⟩, ?_⟩
      exact fun offends => absurd conforms offends
  | refuses offends =>
      refine ⟨glances.machine, stays _ glances.standing, trivial, ?_, fun _ => ?_⟩
      · exact fun conforms => absurd conforms offends.not_conforms
      · exact ⟨_, _, _, _, rfl, rfl, offends, fun _ _ _ other => offends.unique other⟩

/-- Lists of truth values under names, the first of them empty. -/
def truths : List (String × List Bool) := [("a", []), ("b", [true])]

/-- Encodes lists of truth values, and decodes them as lists of integers. -/
def misread : Client Unit :=
  .perform (.init { callbacks := { onLog := fun _ _ m => (m, none) } }) fun
    | .ok (some s) _ =>
      .perform (Shape.operation (.table .string (.list .bool)) truths s) fun
        | .ok _ (.item i) =>
          .perform (.decode i.datum (.table .string (.list .int))) fun _ => .throw (.value .undefined)
        | _ => .throw (.value .undefined)
    | _ => .throw (.value .undefined)

/-- The first list is empty, which is a list of integers, too; the first item of the second one is not. -/
theorem truths_offend {store : Guest.Store} {v : Guest.Value}
    (meets : (Shape.demand (.table .string (.list .bool)) truths).meets store v) :
    Decoder.Offends store (.table .string (.list .int)) v.sight ["[\"b\"]", "[1]"] .int (.bool true) := by
  obtain ⟨t, found, entries⟩ := entries_of_meets meets
  generalize listed : t.entries = es at entries
  cases entries with
  | @cons _ e _ es first entries =>
      cases entries with
      | @cons _ e' _ es second none =>
          cases none
          obtain ⟨key, -, empty⟩ := first
          obtain ⟨key', -, items⟩ := second
          obtain ⟨t₁, found₁, items₁⟩ := items_of_meets (by decide) empty
          obtain ⟨t₂, found₂, items₂⟩ := items_of_meets (by decide) items
          have segment : "[" ++ e'.key.sight.describe ++ "]" = "[\"b\"]" := by
            rw [key', KeyShape.normalized, KeyShape.guest, Guest.sight_ofText]
            decide
          have length₁ := items₁.length_eq
          have length₂ := items₂.length_eq
          rw [List.length_map, List.length_range'] at length₁ length₂
          replace length₁ : 0 = t₁.length := length₁
          replace length₂ : 1 = t₂.length := length₂
          rw [← length₂] at items₂
          cases items₂ with
          | cons item none =>
              have seen : t₂.getInt (Int32.ofNat 1) = .bool true := item.1
              have wrong : Decoder.Offends store .int (t₂.getInt (Int32.ofNat 1)).sight
                  [] .int (.bool true) := by
                rw [seen]
                exact .here fun ⟨_, same⟩ => nomatch same
              rw [← segment]
              refine .value found (i := 1) (by rw [listed]; rfl) ?_ ?_ ?_
              · intro j earlier e₁ here
                obtain rfl : j = 0 := by omega
                rw [listed] at here
                obtain rfl := Option.some.inj here
                rw [key, KeyShape.normalized]
                exact ⟨KeyShape.conforms .string ("a" : String), t₁, found₁, fun i positive last => by omega⟩
              · rw [key', KeyShape.normalized]
                exact KeyShape.conforms .string ("b" : String)
              · exact .item found₂ (Nat.le_refl 1) (by omega) (fun j _ _ => by omega) wrong

/-- The first item of the second list is what is reported. -/
theorem misread_offends : ∃ c : Config Unit,
    Leads (start { directory := default, memory := () } misread) c ∧
      ∃ f, c.step.control = .outcome (.err f) ∧ f.fault = .decode "int" "bool" ["[\"b\"]", "[1]"] := by
  let c₀ : Config Unit := step^[4] (start { directory := default, memory := () } misread)
  let shape : Shape := .table .string (.list .bool)
  have valid : shape.Valid truths := by
    refine ⟨show (truths.map (·.1)).Nodup by decide, fun r mem => ⟨?_, fun _ _ => trivial⟩⟩
    exact (show ∀ r ∈ truths, r.2.length ≤ 2147483647 by decide) r mem
  have reachable : Reachable c₀ := ⟨misread, default, (), run_steps _ _⟩
  obtain ⟨made, recorded⟩ := reachable.recorded
  have accepts : c₀.world.standing.Accepts ⟨0, 0⟩ :=
    (c₀.world.stateViolation?_eq_none ⟨0, 0⟩).mp rfl
  obtain ⟨w, s', d, v, leads, advanced, stands, meets⟩ :=
    shape.supplies truths valid c₀ ⟨0, 0⟩ rfl ⟨made, recorded.sound⟩ accepts
  have offends := truths_offend meets
  let c₁ : Config Unit := { c₀ with world := w, control := .outcome (.ok (some s') (.item (.value d))) }
  refine ⟨step^[2] c₁, (Leads.trans ⟨4, rfl⟩ leads).trans ⟨2, rfl⟩, ?_⟩
  have asked : (step^[2] c₁).control = .perform (.decode d (.table .string (.list .int))) := rfl
  have reachable' : Reachable (step^[2] c₁) := (leads.trans ⟨2, rfl⟩).reachable reachable
  obtain ⟨-, -, -, -, refused⟩ := decode_outcome reachable' asked stands.shows
  obtain ⟨f, path, part, y, gave, fault, -, unique⟩ := refused offends.not_conforms
  obtain ⟨rfl, rfl, rfl⟩ := unique _ _ _ offends
  exact ⟨f, gave, fault⟩

end Config

end LuaHost
