import LuaHost.Proofs.Custody
import LuaHost.Proofs.HostErrors
import LuaHost.Proofs.RejectedCalls
/-!
What becomes of a failure. An operation that reports failures gives its result, or a failure, or throws for a handle
that must not be used; whatever the guest raises and whatever host code throws on the way, nothing else comes out
of it. When its call of the guest fails, the failure says what the error object was: the failure that the object
stands for, the text that was raised, or the object itself behind a handle of its own.
-/

namespace LuaHost

variable {σ : Type}

namespace World
variable {w w' : World σ} {session : Nat} {v error : Guest.Value} {f : Failure} {made : Made}

/-- An error object of the guest stands for a failure: it is of the type that such objects have, and names a
failure that was raised there. -/
def Carries (w : World σ) (session : Nat) (error : Guest.Value) (f : Failure) : Prop :=
  ∃ id, error = .table id ∧
    ((w.machine session).store.table id).metatable = some (w.machine session).store.hostError ∧
    ((w.machine session).store.table id).getText "error" = .light f.identity ∧
    w.raised.find? (·.1 == f.identity) = some (f.identity, f.fault)

theorem failureOf?_eq_some : w.failureOf? session error = some f ↔ w.Carries session error f := by
  cases error with
  | table id =>
      simp only [failureOf?, Carries, Guest.Value.table.injEq, exists_eq_left']
      constructor
      · intro found
        split at found
        · next type =>
            split at found
            · next payload names =>
                obtain ⟨⟨identity, fault⟩, raised, rfl⟩ := Option.map_eq_some_iff.mp found
                have same : identity = payload := by simpa using List.find?_some raised
                subst same
                exact ⟨by simpa using type, names, raised⟩
            · cases found
        · cases found
      · rintro ⟨type, names, raised⟩
        rw [if_pos (by simpa using type), names]
        simp only [raised, Option.map_some]
  | _ =>
      constructor
      · intro found
        cases found
      · rintro ⟨_, same, -⟩
        cases same

/-- The objects that failures are raised as stand for them. -/
theorem carries_of_bears {id : Nat} (bears : (w.machine session).store.Bears id f)
    (distinct : w.Distinct) (known : (f.identity, f.fault) ∈ w.raised) :
    w.Carries session (.table id) f := by
  have found := failureOf?_bears bears distinct known
  exact failureOf?_eq_some.mp found

/-- What the failure of a call of the guest has to be, by the status and the error object that it ended with.
A text is the message, with the place that it names. Any other object is behind a handle; in `w'` the handle still
stands for it. -/
inductive Classifies (w : World σ) (session : Nat) (traceback : Option Guest.Bytes) :
    Guest.Status → Guest.Value → Failure → World σ → Prop
  | carried {error : Guest.Value} {f : Failure} {w' : World σ} (carries : w.Carries session error f) :
      Classifies w session traceback .raised error f w'
  | text {s : Guest.Bytes} {f : Failure} {w' : World σ}
      (fault : f.fault = .runtime .raised [("message", .string (Text.decode s))]
        (Text.Location.ofMessage? (Text.decode s)) (traceback.map Text.decode) none none)
      (message : f.fault.message = Text.decode s) :
      Classifies w session traceback .raised (.string s) f w'
  | value {error : Guest.Value} {f : Failure} {w' : World σ} {message : String} {d : Datum}
      (plain : ∀ s, error ≠ .string s)
      (new : ∀ f, ¬ w.Carries session error f)
      (fault : f.fault = .runtime .raised [("message", .string message)] none
        (traceback.map Text.decode) (some d) none)
      (denotes : w'.give? session d = some error) :
      Classifies w session traceback .raised error f w'
  | interpreter {status : Guest.Status} {error : Guest.Value} {f : Failure} {w' : World σ}
      (other : status ≠ .raised)
      (fault : ∃ context, f.fault = .runtime .interpreter context none none none none) :
      Classifies w session traceback status error f w'

/-- Whoever has come since `w` stands in `w''` for what it stood for in `w'`. -/
def Later (w w' w'' : World σ) : Prop :=
  ∀ y v, ¬ w.Acquainted y → w'.denoted? y = some v → w''.denoted? y = some v

theorem denoted?_congr (same : w'.holdings = w.holdings) (y : Holder) : w'.denoted? y = w.denoted? y := by
  rw [denoted?, denoted?, slot?_congr same, slots_congr same]

theorem Later.same {w₀ : World σ} (same : w'.holdings = w.holdings) : Later w₀ w w' :=
  fun y _ _ denoted => (denoted?_congr same y).trans denoted

theorem Later.trans {w₀ w'' : World σ} (first : Later w₀ w w') (second : Later w₀ w' w'') :
    Later w₀ w w'' :=
  fun y v new denoted => second y v new (first y v new denoted)

/-- What is given back that had been there before is none of those who have come since. -/
theorem Sound.giveBack_later {w₀ : World σ} (sound : w.Sound made) {x : Holder}
    (acquainted : w₀.Acquainted x) : Later w₀ w (w.giveBack x) := by
  intro y v new denoted
  have unlike : y ≠ x := by
    rintro rfl
    exact new acquainted
  exact (sound.giveBack_other unlike).2.trans denoted

/-- A value that has been read is given back as it is, whatever is given back that had been there before. -/
theorem Sound.receive_later (sound : w.Sound made) (opened : session < w.ledgers.size)
    (plain : ∀ s, v ≠ .string s) (later : Later w (w.receive session v).1 w') :
    w'.give? session (w.receive session v).2 = some v := by
  have pinned (kind : CompositeKind) (later : Later w (w.pin session v).1 w') :
      w'.give? session (.composite kind (w.pin session v).2) = some v := by
    have takes := pin_takes sound.sizes opened v
    refine give_of_denoted (h := (w.pin session v).2) kind (later _ v ?_ ?_)
    · exact Nat.lt_irrefl _
    · rw [(sound.takes takes).denoted takes.slot, Function.update_self]
  cases v with
  | nil | bool | float => rfl
  | int n =>
      show w'.give? session (.int n.toInt) = _
      rw [World.give?, if_pos (Guest.fitsInt32_toInt n), Int32.ofInt_toInt]
  | string s => exact absurd rfl (plain s)
  | table | closure | builtin | host | userdata | light | thread => exact pinned _ later

/-- The failure of a call is read off its error object. -/
theorem Sound.readFailure_classifies (sound : w.Sound made) (opened : session < w.ledgers.size)
    {status : Guest.Status} {traceback : Option Guest.Bytes} {w₁ : World σ}
    (read : w.readFailure session status error traceback = (w₁, f)) (later : Later w w₁ w') :
    w.Classifies session traceback status error f w' := by
  rw [readFailure.eq_def] at read
  split at read
  · cases read
    exact .text rfl (Failure.raised_message _ _ _)
  · next plain =>
      split at read
      · next g carried =>
          cases read
          exact .carried (failureOf?_eq_some.mp carried)
      · next alone =>
          cases read
          refine .value plain (fun g carries => ?_) rfl (sound.receive_later opened plain later)
          exact nomatch alone.symm.trans (failureOf?_eq_some.mpr carries)
  · next other _ =>
      cases read
      exact .interpreter (fun same => other same) ⟨_, rfl⟩

end World

namespace Config
variable {c d : Config σ} {f : Failure} {T : List (Pending σ)}

/-- A failure passes what waits for the end of the guest, and whoever has come since `w` is still there. -/
theorem passing_later {w₀ w : World σ} {p : Pending σ} {made : Made} (sound : w.Sound made)
    (passing : p.IsPassing) (kept : ∀ x, p.kept? = some x → w₀.Acquainted x) :
    ∃ w', step ⟨w, .outcome (.err f), p :: T⟩ = ⟨w', .outcome (.err f), T⟩ ∧ World.Later w₀ w w' := by
  cases p with
  | compiled | resolved => exact ⟨w, rfl, .same rfl⟩
  | ran origin s chunk => 
      obtain ⟨w', stepped, same⟩ := ran_step w (.err f) origin s chunk T
      exact ⟨w', stepped, (sound.giveBack_later (x := .chunk s.session chunk) (kept _ rfl)).trans (.same same)⟩
  | called ref =>
      refine ⟨w.release (.reference ref), rfl, ?_⟩
      have target : (Item.reference ref).datum = ref.target := rfl
      simp only [World.release, target]
      cases handle : ref.target.handle? with
      | none => exact .same rfl
      | some h =>
          refine sound.giveBack_later (x := .handle h) (kept _ ?_)
          rw [Pending.kept?, handle, Option.map_some]
  | perform | body | guest | key | value => exact passing.elim

/-- The guest runs for an operation that host code waits for, directly or as a part of another one. -/
theorem guest_waits {session : Nat} (proper : c.posture.Proper) (control : c.control = .guest session) :
    ∃ entry purpose passing k T, entry.session = session ∧
      c.stack = .guest entry purpose :: (passing ++ .perform k :: T) ∧ passing.length ≤ 1 ∧
      ∀ p ∈ passing, p.IsPassing := by
  obtain ⟨w, _, stack⟩ := c
  cases control
  obtain ⟨fits, stacked⟩ := proper
  have fits : (Control.guest session).Fits stack := fits
  have stacked : Stacked stack := stacked
  cases fits with
  | guest entry purpose T =>
      cases stacked with
      | cons fits rest =>
          cases fits with
          | guest op _ _ _ enters fits =>
              cases fits with
              | perform _ k T => exact ⟨entry, purpose, [], k, T, rfl, rfl, Nat.zero_le _, by simp⟩
              | compiled _ s T compiles => exact absurd enters (compiles.stays _ _)
              | ran | resolved | called =>
                  cases rest with
                  | cons fits _ =>
                      cases fits
                      exact ⟨entry, purpose, [_], _, _, rfl, rfl, Nat.le_refl _, by simp [Pending.IsPassing]⟩

/-- What the guest fails with is read, and the failure goes to what waits for the guest. -/
theorem failed_read {entry : State} {purpose : Purpose} {status : Guest.Status} {error : Guest.Value}
    {traceback : Option Guest.Bytes} (control : c.control = .guest entry.session)
    (waits : c.stack = .guest entry purpose :: T)
    (signal : ((c.world.modifyMachine entry.session (·.run portion)).machine entry.session).signal =
      some (.failed status error traceback)) (quiet : c.world.standing.Quiet entry.session) :
    ∃ w f, (c.world.modifyMachine entry.session (·.run portion)).readFailure entry.session status error traceback =
        (w, f) ∧
      c.step = ⟨(w.failCall entry.session f).1.restore entry, .outcome (.err f), T⟩ := by
  rcases read : (c.world.modifyMachine entry.session (·.run portion)).readFailure entry.session status
    error traceback with ⟨w, f⟩
  have heard : w.standing.Quiet entry.session := by
    have standing := (c.world.modifyMachine entry.session (·.run portion)).readFailure_standing
      entry.session status error traceback
    rw [read, World.modifyMachine_standing] at standing
    exact standing ▸ quiet
  exact ⟨w, f, rfl, failed_step control waits signal read heard⟩

/-- When the guest fails, the operation that it runs for ends with a failure that is read off the error object. -/
theorem failed_call (reachable : Reachable c) {session : Nat} {status : Guest.Status}
    {error : Guest.Value} {traceback : Option Guest.Bytes} (control : c.control = .guest session)
    (signal : ((c.world.modifyMachine session (·.run portion)).machine session).signal =
      some (.failed status error traceback)) (quiet : c.world.standing.Quiet session) :
    ∃ entry purpose passing k T w f, entry.session = session ∧
      c.stack = .guest entry purpose :: (passing ++ .perform k :: T) ∧
      step^[passing.length + 1] c = ⟨w, .outcome (.err f), .perform k :: T⟩ ∧
      (c.world.modifyMachine session (·.run portion)).Classifies session traceback status error f w := by
  obtain ⟨entry, purpose, passing, k, T, rfl, waits, short, passes⟩ := guest_waits reachable.proper control
  obtain ⟨made, recorded⟩ := reachable.recorded
  have ran : (c.world.modifyMachine entry.session (·.run portion)).holdings = c.world.holdings :=
    c.world.modifyMachine_holdings _ _ fun m => m.run_slots portion
  have sound := recorded.sound.same ran
  have top : .guest entry purpose ∈ c.stack := waits ▸ List.mem_cons_self
  have issued := reachable.sound.revived _ top entry rfl
  have opened : entry.session < (c.world.modifyMachine entry.session (·.run portion)).ledgers.size := by
    simpa [posture, World.standing, World.modifyMachine] using issued.1
  obtain ⟨w₁, f, read, stepped⟩ := failed_read control waits signal quiet
  have same : ((w₁.failCall entry.session f).1.restore entry).holdings = w₁.holdings :=
    (World.restore_holdings _ entry).trans (World.holdings_disregards.failCall w₁ _ f)
  have classified {w' : World σ}
      (later : World.Later (c.world.modifyMachine entry.session (·.run portion))
        ((w₁.failCall entry.session f).1.restore entry) w') :=
    sound.readFailure_classifies opened read ((World.Later.same same).trans later)
  obtain _ | ⟨p, passing⟩ := passing
  · exact ⟨entry, purpose, [], k, T, _, f, rfl, waits, stepped, classified (.same rfl)⟩
  · obtain rfl : passing = [] := by simpa using short
    obtain ⟨made', recorded'⟩ := (reachable.run (run_steps c 1)).recorded
    have sound' := recorded'.sound
    rw [Function.iterate_one, stepped] at sound'
    have kept : ∀ x, p.kept? = some x →
        (c.world.modifyMachine entry.session (·.run portion)).Acquainted x := by
      intro x kept
      refine World.Changes.acquainted (.machine _ _ fun m => m.run_slots portion)
        (reachable.acquainted x (List.mem_append_right _ ?_))
      refine List.mem_filterMap.mpr ⟨p, ?_, kept⟩
      rw [posture, waits]
      simp
    obtain ⟨w', passed, later⟩ := passing_later (f := f) (T := .perform k :: T) sound'
      (passes p List.mem_cons_self) kept
    refine ⟨entry, purpose, [p], k, T, w', f, rfl, waits, ?_, classified later⟩
    exact (congrArg step stepped).trans passed

/-- A guest that fails with the object that was raised for a failure fails with this failure. -/
theorem Level.Fails.carries {l : Level σ} {x : Thrown} {w : World σ} (fails : l.Fails f)
    (throws : Throws x l.session l.stack l.before l.throwing)
    (classified : l.before.asFailure .hostFunction x = (w, some f))
    (distinct : l.failing.world.Distinct) : l.ran.Carries l.session (.table l.object) f :=
  World.carries_of_bears fails.bears distinct (fails.known throws classified)

end Config

end LuaHost
