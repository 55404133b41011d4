import LuaHost.Proofs.Standing
import LuaHost.Proofs.GuestSlots
/-!
How the parts of an operation end: which outcomes they can have, and where they leave the sessions. A
failure is thrown rather than reported only where the host itself throws on being told about it.
-/

namespace LuaHost

namespace Outcome

def IsOk : Outcome → Prop
  | ok .. => True
  | _ => False

def IsThrown : Outcome → Prop
  | threw _ => True
  | _ => False

end Outcome

namespace World
variable {σ : Type} (w : World σ)

theorem callback_onError (session : Nat) :
    w.callback session (·.onError) = (w.standing.callbacks[session]?).bind (·.onError) := by
  simp only [callback, standing, Array.getElem?_map]
  cases w.vms[session]? <;> rfl

/-- A quiet host is told about a failure without throwing. -/
theorem report_quiet {session : Nat} (quiet : w.standing.Quiet session) (f : Failure) :
    (w.report session f).2 = none := by
  unfold report
  rw [callback_onError]
  cases hc : w.standing.callbacks[session]? with
  | none => rfl
  | some callbacks =>
      cases hh : callbacks.onError with
      | none => simp [hh, notify]
      | some hook =>
          simpa [hh, notify] using quiet callbacks hc hook hh f w.ledgers w.memory

/-! ### Failures -/

section Ignores
variable {R : World σ → World σ → Prop} (ignores : Ignores R)
include ignores

theorem Ignores.report (w : World σ) (session : Nat) (f : Failure) : R w (w.report session f).1 :=
  ignores.notify w _ f

theorem Ignores.fail (w : World σ) (session : Nat) (fault : Fault) :
    R w (w.fail session fault).1 := by
  have new : R w (w.newFailure fault).1 := ignores.identity w
  have told := ignores.report (w.newFailure fault).1 session (w.newFailure fault).2
  simp only [World.fail]
  split
  · next w' quiet =>
      rw [quiet] at told
      exact ignores.trans new told
  · next w' t threw =>
      rw [threw] at told
      exact ignores.trans new told

theorem Ignores.asFailure (w : World σ) (code : RuntimeCode) (t : Thrown) :
    R w (w.asFailure code t).1 := by
  unfold World.asFailure
  split
  · exact ignores.refl w
  · split
    · exact ignores.refl w
    · exact ignores.identity w

theorem Ignores.failUnexpected (w : World σ) (session : Nat) (t : Thrown) :
    R w (w.failUnexpected session t).1 := by
  have same := ignores.asFailure w .raised t
  unfold World.failUnexpected
  split
  · next w' classified =>
      rw [classified] at same
      exact same
  · next w' f classified =>
      rw [classified] at same
      have told := ignores.report w' session f
      split
      · next w'' quiet =>
          rw [quiet] at told
          exact ignores.trans same told
      · next w'' t' threw =>
          rw [threw] at told
          exact ignores.trans same told

theorem Ignores.failCall (w : World σ) (session : Nat) (f : Failure) :
    R w (w.failCall session f).1 := by
  have told := ignores.report w session f
  unfold World.failCall
  split
  · next w' quiet =>
      rw [quiet] at told
      exact told
  · next w' t threw =>
      rw [threw] at told
      exact ignores.trans told (ignores.failUnexpected w' session t)

end Ignores

theorem Overlooks.raiseInGuest {R : World σ → World σ → Prop} (overlooks : Overlooks R) (w : World σ)
    (session : Nat) (t : Thrown) : R w (w.raiseInGuest session t) := by
  have same := overlooks.asFailure w .hostFunction t
  unfold World.raiseInGuest
  split
  · next w' classified =>
      rw [classified] at same
      exact overlooks.trans same (overlooks.machines w' session _ fun m => m.breakDown_slots [])
  · next w' f classified =>
      rw [classified] at same
      refine overlooks.trans (overlooks.trans same (overlooks.raised w' (f.identity, f.fault))) ?_
      refine overlooks.machines _ session _ fun m => ?_
      exact Guest.Machine.raiseFromHost_slots _ _

@[simp] theorem fail_standing (session : Nat) (fault : Fault) :
    (w.fail session fault).1.standing = w.standing :=
  standing_overlooks.fail w session fault

theorem fail_not_ok (session : Nat) (fault : Fault) : ¬ (w.fail session fault).2.IsOk := by
  simp only [fail]
  split <;> exact id

theorem fail_quiet {session : Nat} (quiet : w.standing.Quiet session) (fault : Fault) :
    ¬ (w.fail session fault).2.IsThrown := by
  have heard := report_quiet (w.newFailure fault).1 quiet (w.newFailure fault).2
  simp only [fail]
  split
  · exact id
  · simp_all

@[simp] theorem failUnexpected_standing (session : Nat) (t : Thrown) :
    (w.failUnexpected session t).1.standing = w.standing :=
  standing_overlooks.failUnexpected w session t

theorem failUnexpected_not_ok (session : Nat) (t : Thrown) :
    ¬ (w.failUnexpected session t).2.IsOk := by
  unfold failUnexpected
  split
  · exact id
  · split <;> exact id

/-- A thing with a text becomes a failure that a quiet host hears about. -/
theorem failUnexpected_quiet {session : Nat} (quiet : w.standing.Quiet session)
    (e : Exception) : ¬ (w.failUnexpected session (.exception e)).2.IsThrown := by
  unfold failUnexpected
  simp only [asFailure, Thrown.message?]
  have heard := report_quiet (w.newFailure (.runtime .raised [("message", .string e.message)] none
    none none (some (.exception e)))).1 quiet
  split
  · exact id
  · next thrown =>
      rw [Prod.ext_iff] at thrown
      simp [heard] at thrown

@[simp] theorem failCall_standing (session : Nat) (f : Failure) :
    (w.failCall session f).1.standing = w.standing :=
  standing_overlooks.failCall w session f

theorem failCall_not_ok (session : Nat) (f : Failure) : ¬ (w.failCall session f).2.IsOk := by
  unfold failCall
  split
  · exact id
  · exact failUnexpected_not_ok _ session _

theorem failCall_quiet {session : Nat} (quiet : w.standing.Quiet session) (f : Failure) :
    ¬ (w.failCall session f).2.IsThrown := by
  have heard := report_quiet w quiet f
  unfold failCall
  split
  · exact id
  · simp_all

@[simp] theorem readFailure_standing (session : Nat) (status : Guest.Status) (error : Guest.Value)
    (traceback : Option Guest.Bytes) :
    (w.readFailure session status error traceback).1.standing = w.standing := by
  unfold readFailure
  split
  · rfl
  · split
    · rfl
    · simp
  · rfl

@[simp] theorem raiseInGuest_standing (session : Nat) (t : Thrown) :
    (w.raiseInGuest session t).standing = w.standing :=
  standing_overlooks.raiseInGuest w session t

/-! ### Chunks -/

@[simp] theorem compile_standing (session chunk : Nat) :
    (w.compile session chunk).1.standing = w.standing := by
  unfold compile
  split
  · rfl
  · split
    · exact fail_standing w session _
    · exact keepCompiled_standing w session chunk _

/-- A chunk that does not compile is a failure, and a quiet host just hears about it. -/
theorem compile_error {session chunk : Nat} {w' : World σ} {o : Outcome}
    (h : w.compile session chunk = (w', .error o)) :
    ¬ o.IsOk ∧ (w.standing.Quiet session → ¬ o.IsThrown) := by
  unfold compile at h
  split at h
  · simp at h
  · split at h
    · simp only [Prod.mk.injEq, Except.error.injEq] at h
      obtain ⟨-, rfl⟩ := h
      exact ⟨fail_not_ok w session _, fun quiet => fail_quiet w quiet _⟩
    · simp at h

/-- Compiling ends with a failure, or with the chunk and the successor of the head. -/
theorem load_cases (session chunk : Nat) :
    (¬ (w.load session chunk).2.IsOk ∧ (w.load session chunk).1.standing = w.standing) ∨
    ((w.load session chunk).1.standing = w.standing.advance session ∧
      (w.load session chunk).2 = .ok (some ((w.standing.advance session).head session))
        (.chunk chunk ((w.compile session chunk).1.chunk chunk))) := by
  have same := compile_standing w session chunk
  unfold load
  split
  · next w' o failed =>
      rw [failed] at same
      exact .inl ⟨(compile_error w failed).1, same⟩
  · next w' slot compiled =>
      rw [compiled] at same
      right
      simp only at same
      rw [succeed_standing, succeed_outcome, same, compiled]
      exact ⟨rfl, rfl⟩

/-! ### Decoding -/

section Reading
variable {R : World σ → World σ → Prop} (reading : Reading R)
include reading

theorem Reading.decodeItems (f : World σ → Datum → DecodeResult σ Decoded)
    (reads : ∀ w d, R w (f w d).1) (session : Nat) (items : List (Nat × Guest.Value)) (w : World σ)
    (done : List Decoded) : R w (decodeItems f session w items done).1 := by
  induction items generalizing w done with
  | nil => exact reading.refl w
  | cons item rest ih =>
      have first := reading.trans (reading.receive w session item.2)
        (reads (w.receive session item.2).1 (w.receive session item.2).2)
      simp only [World.decodeItems]
      split
      · next w' x decoded =>
          rw [decoded] at first
          exact reading.trans first (ih _ _)
      · next w' r refused =>
          rw [refused] at first
          exact first

theorem Reading.decodeEntries (f g : World σ → Datum → DecodeResult σ Decoded)
    (readsKey : ∀ w d, R w (f w d).1) (readsValue : ∀ w d, R w (g w d).1) (session : Nat)
    (entries : List Guest.Entry) (w : World σ) (done : List (Decoded × Decoded)) :
    R w (decodeEntries f g session w entries done).1 := by
  induction entries generalizing w done with
  | nil => exact reading.refl w
  | cons e rest ih =>
      have received := reading.trans (reading.receive w session e.key)
        (reading.receive (w.receive session e.key).1 session e.value)
      have key := reading.trans received (readsKey _ (w.receive session e.key).2)
      simp only [World.decodeEntries]
      split
      · next w' r refused =>
          rw [refused] at key
          exact key
      · next w' x decoded =>
          rw [decoded] at key
          have value := reading.trans key
            (readsValue w' ((w.receive session e.key).1.receive session e.value).2)
          split
          · next w'' r refused =>
              rw [refused] at value
              exact value
          · next w'' y decoded' =>
              rw [decoded'] at value
              exact reading.trans value (ih _ _)

theorem Reading.withTable {α : Type} (w : World σ) (expected : String) (d : Datum)
    (k : Nat → Guest.Table → DecodeResult σ α) (reads : ∀ session t, R w (k session t).1) :
    R w (w.withTable expected d k).1 := by
  unfold World.withTable
  split
  · split
    · exact reading.refl w
    · exact reads _ _
  · exact reading.refl w

theorem Reading.decodePlain (w : World σ) (decoder : Decoder) (d : Datum) :
    R w (w.decodePlain decoder d).1 := by
  unfold World.decodePlain
  split <;> exact reading.refl w

theorem Reading.decodeList (f : World σ → Datum → DecodeResult σ Decoded)
    (reads : ∀ w d, R w (f w d).1) (expected : String) (w : World σ) (d : Datum) :
    R w (decodeList f expected w d).1 := by
  refine reading.withTable w expected d _ fun session t => ?_
  have items := reading.decodeItems f reads session (itemsOf t) w []
  split <;> simp_all

theorem Reading.decodePairs (f g : World σ → Datum → DecodeResult σ Decoded)
    (readsKey : ∀ w d, R w (f w d).1) (readsValue : ∀ w d, R w (g w d).1) (expected : String)
    (w : World σ) (d : Datum) : R w (decodePairs f g expected w d).1 := by
  refine reading.withTable w expected d _ fun session t => ?_
  have entries := reading.decodeEntries f g readsKey readsValue session t.entries w []
  split <;> simp_all

theorem Reading.decodeWith (decoder : Decoder) (w : World σ) (d : Datum) :
    R w (decodeWith decoder w d).1 := by
  induction decoder generalizing w d with
  | nil | bool | int | float | number | string | value | reference =>
      exact reading.decodePlain w _ d
  | optional inner ih =>
      rw [World.decodeWith]
      split
      · exact reading.refl w
      · exact ih w d
  | list item ih =>
      rw [World.decodeWith]
      exact reading.decodeList _ ih _ w d
  | table key entry ihKey ihEntry =>
      rw [World.decodeWith]
      exact reading.decodePairs _ _ ihKey ihEntry _ w d

end Reading

/-- Decoding moves no head and gives no state. -/
theorem decode_cases (d : Datum) (decoder : Decoder) :
    (w.decode d decoder).1.standing = w.standing ∧
      ((∃ r, (w.decode d decoder).2 = .ok none r) ∨ ¬ (w.decode d decoder).2.IsOk) := by
  have same := standing_reading.decodeWith decoder w d
  unfold decode
  split
  · next w' x decoded => exact ⟨by simpa [decoded] using same, .inl ⟨_, rfl⟩⟩
  · next w' fault refused => exact ⟨by simpa [refused] using same, .inr id⟩
  · next w' e o path refused => exact ⟨by simpa [refused] using same, .inr id⟩

end World

end LuaHost
