import LuaHost.Proofs.Encoders
import LuaHost.Proofs.Refusals
import LuaHost.Proofs.Stacks
/-!
What waits for an operation makes no difference to it. A step looks at nothing but the top of the stack, so that what
an operation comes to can be told without anybody who waits for it; and what comes to an outcome for one who waits
comes to the same outcome for another one.
-/

namespace LuaHost

variable {σ : Type}

namespace Config
variable (c : Config σ) (T : List (Pending σ))

/-- More waits below. -/
def onto : Config σ := { c with stack := c.stack ++ T }

variable {c T}

/-- Nothing that waits below makes a difference to what is done. -/
def Aloof (c : Config σ) (f : Config σ → Config σ) : Prop := ∀ T, f (c.onto T) = (f c).onto T

section
variable {f : Config σ → Config σ} {k : Config σ → Config σ}

theorem requiring_aloof (s : State) (goesOn : c.Aloof k) : c.Aloof (·.requiring s k) := by
  intro T
  have same : (c.onto T).world = c.world := rfl
  simp only [requiring, same]
  split
  · rfl
  · exact goesOn T

theorem claiming_aloof (session : Nat) (items : List Item) (goesOn : c.Aloof k) :
    c.Aloof (·.claiming session items k) := by
  intro T
  have same : (c.onto T).world = c.world := rfl
  simp only [claiming, same]
  split
  · rfl
  · exact goesOn T

theorem readingFile_aloof (path : String) {k : ReadOutcome → Config σ → Config σ}
    (goesOn : ∀ o, c.Aloof (k o)) : c.Aloof (·.readingFile path k) := by
  intro T
  have same : (c.onto T).world = c.world := rfl
  simp only [readingFile, same]
  split
  · rfl
  · exact goesOn _ T

end

/-! ### Calls of the guest -/

theorem applying_aloof (entry : State) (function : Guest.Value) (arguments : List Item) :
    c.Aloof (·.applying entry function arguments) := by
  intro T
  have same : (c.onto T).world = c.world := rfl
  simp only [applying, same]
  split
  · split <;> rfl
  · rfl

theorem calling_aloof (entry : State) (g : Item) (arguments : List Item) : c.Aloof (·.calling entry g arguments) := by
  intro T
  have gate : (c.onto T).openingGate entry = (c.openingGate entry).onto T := rfl
  have same : ((c.openingGate entry).onto T).world = (c.openingGate entry).world := rfl
  simp only [calling, gate, same]
  split
  · rfl
  · exact applying_aloof _ _ _ T

theorem leaving_onto (entry : State) (purpose : Purpose) (stack : List (Pending σ)) (signal : Guest.Signal) :
    (c.onto T).leaving entry purpose (stack ++ T) signal = (c.leaving entry purpose stack signal).onto T := by
  cases signal <;> rfl

theorem invoking_aloof (session index : Nat) (values : List Guest.Value) :
    c.Aloof (·.invoking session index values) := by
  intro T
  have same : (c.onto T).world = c.world := rfl
  simp only [invoking, same]
  split
  · rfl
  · split <;> rfl

theorem answering_aloof (session : Nat) (name : String) (state : State) (items : List Item) :
    c.Aloof (·.answering session name state items) := by
  intro T
  have same : (c.onto T).world = c.world := rfl
  have refused : (c.onto T).returnViolation? session state items = c.returnViolation? session state items := rfl
  simp only [answering, same, refused]
  split
  · rfl
  · split
    · split <;> rfl
    · rfl

/-! ### Tables -/

theorem building_aloof (table : TableInProgress σ) (last : State) : c.Aloof (·.building table last) := by
  intro T
  have same : (c.onto T).world = c.world := rfl
  simp only [building, same]
  split
  · rfl
  · split
    · rfl
    · split <;> rfl

theorem nextEntry_aloof (table : TableInProgress σ) (last : State) : c.Aloof (·.nextEntry table last) := by
  intro T
  simp only [nextEntry]
  split
  · exact building_aloof table last T
  · rfl

theorem gotKey_aloof (table : TableInProgress σ) (value : State → Client σ) (state : State) (key : Item) :
    c.Aloof (·.gotKey table value state key) := by
  intro T
  simp only [gotKey]
  split <;> rfl

/-! ### Host code -/

theorem done_onto (waits : c.stack ≠ []) (state : State) (items : List Item) :
    (c.onto T).done state items = (c.done state items).onto T := by
  obtain ⟨w, control, stack⟩ := c
  cases stack with
  | nil => exact absurd rfl waits
  | cons f R =>
      cases f with
      | body session name => exact answering_aloof (c := ⟨w, control, R⟩) session name state items T
      | key table value => exact gotKey_aloof (c := ⟨w, control, R⟩) table value state _ T
      | value table key => exact nextEntry_aloof (c := ⟨w, control, R⟩) _ state T
      | _ => rfl

theorem thrown_onto (waits : c.stack ≠ []) (t : Thrown) : (c.onto T).thrown t = (c.thrown t).onto T := by
  obtain ⟨w, control, stack⟩ := c
  cases stack with
  | nil => exact absurd rfl waits
  | cons f R => cases f <;> rfl

theorem clientStep_onto (waits : c.stack ≠ []) (client : Client σ) :
    (c.onto T).clientStep client = (c.clientStep client).onto T := by
  cases client with
  | done state items => exact done_onto waits state items
  | throw t => exact thrown_onto waits t
  | access | identity | perform => rfl

/-! ### Operations -/

theorem encoding_aloof (s : State) (p : Primitive) : c.Aloof (·.encoding s p) := by
  unfold encoding
  split
  · exact fun _ => rfl
  · exact requiring_aloof s fun _ => rfl

theorem lookingUp_aloof (s : State) (keys : List String) (asReference : Bool) :
    c.Aloof (·.lookingUp s keys asReference) := by
  refine requiring_aloof s ?_
  split <;> exact fun _ => rfl

theorem assigning_aloof (s : State) (keys : List String) (item : Item) : c.Aloof (·.assigning s keys item) := by
  refine requiring_aloof s ?_
  split
  · exact fun _ => rfl
  · exact claiming_aloof s.session [item] fun _ => rfl

theorem loadingFile_aloof (s : State) (path : String) : c.Aloof (·.loadingFile s path) := by
  refine requiring_aloof s (readingFile_aloof path fun o => ?_)
  cases o <;> exact fun _ => rfl

theorem runningChunk_aloof (s : State) (chunk : Nat) : c.Aloof (·.runningChunk s chunk) := by
  intro T
  have same : (c.onto T).world = c.world := rfl
  simp only [runningChunk, requiring, same]
  split
  · rfl
  · generalize c.world.compile s.session chunk = result
    obtain ⟨w, o | slot⟩ := result
    · rfl
    · let opened : Config σ := { c with world := w }.openingGate s
      exact applying_aloof (c := opened) s ((opened.world.machine s.session).slots.content slot) [] T

theorem perform_aloof (op : Operation σ) : c.Aloof (·.perform op) := by
  cases op with
  | encode s p => exact encoding_aloof s p
  | encodeTable s entries => exact requiring_aloof s (nextEntry_aloof _ s)
  | expose s name body => exact requiring_aloof s fun _ => rfl
  | get s keys => exact lookingUp_aloof s keys false
  | refGet s keys => exact lookingUp_aloof s keys true
  | set s keys item => exact assigning_aloof s keys item
  | load s source name => exact requiring_aloof s fun _ => rfl
  | loadFile s path => exact loadingFile_aloof s path
  | runChunk s chunk => exact runningChunk_aloof s chunk
  | call s ref arguments =>
      exact requiring_aloof s (claiming_aloof s.session _ (calling_aloof s _ arguments))
  | _ => exact fun _ => rfl

/-! ### Outcomes -/

theorem resolved_aloof (s : State) (keys : List String) (arguments : List Item) (o : Outcome) :
    c.Aloof (·.resolved s keys arguments o) := by
  intro T
  have same : (c.onto T).world = c.world := rfl
  simp only [resolved, same]
  split
  · split
    · rfl
    · split <;> rfl
  · rfl

theorem outcomeStep_onto (waits : c.stack ≠ []) (o : Outcome) :
    (c.onto T).outcomeStep o = (c.outcomeStep o).onto T := by
  obtain ⟨w, control, stack⟩ := c
  cases stack with
  | nil => exact absurd rfl waits
  | cons f R =>
      cases f with
      | compiled origin =>
          simp only [outcomeStep, onto, List.cons_append, ranCompiled]
          split <;> rfl
      | ran origin s chunk => cases o <;> rfl
      | resolved s keys arguments => exact resolved_aloof (c := ⟨w, control, R⟩) s keys arguments o T
      | _ => rfl

/-! ### Guest machines -/

theorem readingForGuest_aloof (session : Nat) (path : Guest.Bytes) :
    c.Aloof (·.readingForGuest session (Text.decode path)) :=
  readingFile_aloof _ fun _ _ => rfl

theorem logging_aloof (session : Nat) (line : String) : c.Aloof (·.logging session line) := by
  intro T
  have same : (c.onto T).world = c.world := rfl
  simp only [logging, same]
  split <;> rfl

theorem guestEnded_onto (waits : c.stack ≠ []) (signal : Guest.Signal) :
    (c.onto T).guestEnded signal = (c.guestEnded signal).onto T := by
  obtain ⟨w, control, stack⟩ := c
  cases stack with
  | nil => exact absurd rfl waits
  | cons f R =>
      cases f with
      | guest entry purpose => exact leaving_onto (c := ⟨w, control, _⟩) entry purpose R signal
      | _ => rfl

theorem heeding_onto (waits : c.stack ≠ []) (session : Nat) (signal : Option Guest.Signal) :
    (c.onto T).heeding session signal = (c.heeding session signal).onto T := by
  rcases signal with _ | (values | ⟨status, error, traceback⟩ | ⟨index, values⟩ | line | path)
  · rfl
  · exact guestEnded_onto waits _
  · exact guestEnded_onto waits _
  · exact invoking_aloof session index values T
  · exact logging_aloof session line T
  · exact readingForGuest_aloof session path T

/-- There is something to do before anything is handed to what waits below. -/
def Busy (c : Config σ) : Prop :=
  c.stack ≠ [] ∨ (∃ op, c.control = .perform op) ∨ ∃ path next, c.control = .lacking path next

theorem step_onto (busy : c.Busy) : (c.onto T).step = c.step.onto T := by
  obtain ⟨w, control, stack⟩ := c
  cases control with
  | client k => exact clientStep_onto (c := ⟨w, _, stack⟩) (by simpa [Busy] using busy) k
  | perform op => exact perform_aloof (c := ⟨w, _, stack⟩) op T
  | outcome o => exact outcomeStep_onto (c := ⟨w, _, stack⟩) (by simpa [Busy] using busy) o
  | guest session =>
      have waits : stack ≠ [] := by simpa [Busy] using busy
      let ran : Config σ := ⟨w.modifyMachine session (·.run portion), .guest session, stack⟩
      have before : ran.heeding session (ran.world.machine session).signal = step ⟨w, .guest session, stack⟩ :=
        (guestStep_eq (c := ⟨w, .guest session, stack⟩) session).symm
      rw [← before, ← heeding_onto (c := ran) waits]
      exact guestStep_eq (c := ⟨w, .guest session, stack ++ T⟩) session
  | lacking path next =>
      simp only [step, onto]
      split <;> rfl
  | finished r => rfl

theorem steps_onto {n : Nat} (busy : ∀ m < n, (step^[m] c).Busy) : step^[n] (c.onto T) = (step^[n] c).onto T := by
  induction n with
  | zero => rfl
  | succ n ih =>
      have before := ih fun m less => busy m (Nat.lt_succ_of_lt less)
      rw [Function.iterate_succ_apply', Function.iterate_succ_apply', before, step_onto (busy n (Nat.lt_succ_self n))]

/-! ### Runs above a stack -/

/-- The steps from one configuration to another one are made above a stack. -/
def LeadsAbove (T : List (Pending σ)) (c d : Config σ) : Prop :=
  ∃ n, step^[n] c = d ∧ ∀ m ≤ n, T <:+ (step^[m] c).stack

section
variable {d e : Config σ} {T' : List (Pending σ)}

theorem LeadsAbove.refl (above : T <:+ c.stack) : LeadsAbove T c c :=
  ⟨0, rfl, fun _ le => Nat.le_zero.mp le ▸ above⟩

theorem LeadsAbove.trans (first : LeadsAbove T c d) (second : LeadsAbove T d e) : LeadsAbove T c e := by
  obtain ⟨n, rfl, above⟩ := first
  obtain ⟨m, rfl, above'⟩ := second
  refine ⟨m + n, Function.iterate_add_apply step m n c, fun i le => ?_⟩
  rcases Nat.le_total i n with early | late
  · exact above i early
  · obtain ⟨j, rfl⟩ := Nat.exists_eq_add_of_le late
    rw [Nat.add_comm, Function.iterate_add_apply]
    exact above' j (by omega)

theorem LeadsAbove.weaken (leads : LeadsAbove T c d) (below : T' <:+ T) : LeadsAbove T' c d := by
  obtain ⟨n, led, above⟩ := leads
  exact ⟨n, led, fun m le => below.trans (above m le)⟩

theorem LeadsAbove.of_step (above : T <:+ c.stack) (above' : T <:+ c.step.stack) : LeadsAbove T c c.step := by
  refine ⟨1, rfl, fun m le => ?_⟩
  rcases Nat.le_one_iff_eq_zero_or_eq_one.mp le with rfl | rfl
  · exact above
  · exact above'

theorem LeadsAbove.head (above : T <:+ c.stack) (rest : LeadsAbove T c.step d) : LeadsAbove T c d := by
  obtain ⟨n, led, above'⟩ := rest
  exact (of_step above (above' 0 (Nat.zero_le n))).trans ⟨n, led, above'⟩

/-- Whoever goes further makes a step. -/
theorem LeadsAbove.next (leads : LeadsAbove T c d) (further : c ≠ d) : LeadsAbove T c.step d := by
  obtain ⟨n, led, above⟩ := leads
  cases n with
  | zero => exact absurd led further
  | succ n =>
      refine ⟨n, led, fun m le => ?_⟩
      exact above (m + 1) (Nat.succ_le_succ le)

theorem LeadsAbove.after {n m : Nat} (above : ∀ i ≤ n, T <:+ (step^[i] c).stack) (le : m ≤ n) :
    LeadsAbove T (step^[m] c) (step^[n] c) := by
  obtain ⟨j, rfl⟩ := Nat.exists_eq_add_of_le le
  refine ⟨j, ?_, fun i less => ?_⟩
  · rw [Nat.add_comm, Function.iterate_add_apply]
  · rw [← Function.iterate_add_apply]
    exact above _ (by omega)

theorem LeadsAbove.last (leads : LeadsAbove T c d) : T <:+ d.stack := by
  obtain ⟨n, rfl, above⟩ := leads
  exact above n (Nat.le_refl n)

theorem LeadsAbove.run (leads : LeadsAbove T c d) : Run T c d := by
  obtain ⟨n, rfl, above⟩ := leads
  induction n with
  | zero => exact .refl
  | succ n ih =>
      have last := above (n + 1) (Nat.le_refl _)
      rw [Function.iterate_succ_apply'] at last ⊢
      exact .tail (ih fun m le => above m (Nat.le_succ_of_le le)) ⟨.step _, last⟩

theorem LeadsAbove.proper (leads : LeadsAbove T c d) (proper : c.posture.Proper) : d.posture.Proper := by
  obtain ⟨n, rfl, -⟩ := leads
  induction n with
  | zero => exact proper
  | succ n ih =>
      rw [Function.iterate_succ_apply']
      exact (Next.step _).proper ih

theorem waits_of_outcome {o : Outcome} (proper : c.posture.Proper) (control : c.control = .outcome o) :
    c.stack ≠ [] := by
  obtain ⟨w, _, T⟩ := c
  subst control
  rintro rfl
  cases proper.control with
  | outcome _ _ awaits => exact awaits

/-- When an outcome is taken up, what waited for it is gone. -/
theorem LeadsAbove.outcome_last {o : Outcome} (leads : LeadsAbove c.stack c d) (proper : c.posture.Proper)
    (control : c.control = .outcome o) : c = d := by
  by_contra further
  obtain ⟨n, -, above⟩ := leads.next further
  have kept : c.stack <:+ c.step.stack := above 0 (Nat.zero_le n)
  obtain ⟨r, finished⟩ := finished_of_kept control kept
  have fits : c.step.control.Fits c.step.stack := ((Next.step c).proper proper).control
  generalize c.step.stack = stack at fits kept
  rw [finished] at fits
  cases fits
  exact waits_of_outcome proper control (List.suffix_nil.mp kept)

theorem awaits_not_client (awaits : AwaitsOutcome T) : ¬ AwaitsClient T := by
  cases T with
  | nil => exact awaits.elim
  | cons f R => cases f <;> first | exact awaits.elim | exact id

/-- Who has nothing to do any more, and is waited for, has come to an outcome. -/
theorem outcome_of_idle (proper : (c.onto T).posture.Proper) (awaits : AwaitsOutcome T) (idle : ¬ c.Busy) :
    ∃ o, c = ⟨c.world, .outcome o, []⟩ := by
  obtain ⟨w, control, stack⟩ := c
  simp only [Busy, not_or, not_not] at idle
  obtain ⟨rfl, performs, lacks⟩ := idle
  have fits : control.Fits T := proper.control
  cases fits with
  | outcome o => exact ⟨o, rfl⟩
  | client _ _ h => exact (awaits_not_client awaits h).elim
  | perform op => exact absurd ⟨op, rfl⟩ performs
  | guest => exact awaits.elim
  | lacksGuest path | lacksFile path => exact absurd ⟨path, _, rfl⟩ lacks
  | finished => exact awaits.elim

end

end Config

namespace World
variable (w : World σ)

/-- What an operation comes to for those who wait for it. -/
def Gives (T : List (Pending σ)) (op : Operation σ) (o : Outcome) (w' : World σ) : Prop :=
  Config.LeadsAbove T ⟨w, .perform op, T⟩ ⟨w', .outcome o, T⟩

variable {w} {w' : World σ} {T : List (Pending σ)} {op : Operation σ} {o : Outcome}

end World

namespace Config
variable {w : World σ} {T : List (Pending σ)} {op : Operation σ} {d : Config σ}

theorem awaits_of_perform (proper : (⟨w.standing, .perform op, T⟩ : Posture σ).Proper) : AwaitsOutcome T := by
  cases proper.control with
  | perform _ _ fits => exact fits.awaits

theorem alone_of_onto {o : Outcome} {w' : World σ} (same : d.onto T = ⟨w', .outcome o, T⟩) :
    d = ⟨w', .outcome o, []⟩ := by
  obtain ⟨w₁, control, stack⟩ := d
  obtain ⟨rfl, rfl, whole⟩ := Config.mk.inj same
  obtain rfl : stack = [] := List.append_left_eq_self.mp whole
  rfl

/-- What is done with nobody waiting is done above a stack as well. -/
theorem leadsAbove_of_busy {n : Nat} (busy : ∀ m < n, (step^[m] ⟨w, .perform op, []⟩).Busy) :
    ∀ m ≤ n, T <:+ (step^[m] ⟨w, .perform op, T⟩).stack := by
  intro m le
  have same := steps_onto (T := T) (c := ⟨w, .perform op, []⟩) fun i (less : i < m) =>
    busy i (Nat.lt_of_lt_of_le less le)
  exact same ▸ List.suffix_append _ _

/-- An operation goes on as it does with nobody waiting, or it has come to an outcome. -/
theorem performing_cases (proper : (⟨w.standing, .perform op, T⟩ : Posture σ).Proper) (n : Nat) :
    (∀ m < n, (step^[m] ⟨w, .perform op, []⟩).Busy) ∨
      ∃ m < n, ∃ o w', step^[m] ⟨w, .perform op, []⟩ = ⟨w', .outcome o, []⟩ ∧
        step^[m] ⟨w, .perform op, T⟩ = ⟨w', .outcome o, T⟩ ∧ w.Gives T op o w' := by
  induction n with
  | zero => exact .inl fun m less => absurd less (Nat.not_lt_zero m)
  | succ n ih =>
      rcases ih with busy | ⟨m, less, ended⟩
      · by_cases more : (step^[n] ⟨w, .perform op, []⟩ : Config σ).Busy
        · refine .inl fun m less => ?_
          rcases Nat.lt_succ_iff_lt_or_eq.mp less with earlier | rfl
          · exact busy m earlier
          · exact more
        · have same : step^[n] ⟨w, .perform op, T⟩ = (step^[n] ⟨w, .perform op, []⟩ : Config σ).onto T :=
            steps_onto busy
          have there : ((step^[n] ⟨w, .perform op, []⟩ : Config σ).onto T).posture.Proper := by
            rw [← same]
            exact LeadsAbove.proper (T := []) ⟨n, rfl, fun _ _ => List.nil_suffix⟩ proper
          obtain ⟨o, ended⟩ := outcome_of_idle there (awaits_of_perform proper) more
          have above := same.trans (congrArg (·.onto T) ended)
          exact .inr ⟨n, Nat.lt_succ_self n, o, _, ended, above, n, above, leadsAbove_of_busy busy⟩
      · exact .inr ⟨m, Nat.lt_succ_of_lt less, ended⟩

theorem iterate_ended {o : Outcome} {w' w'' : World σ} {o' : Outcome} {T' : List (Pending σ)} (n : Nat) :
    step^[n + 1] ⟨w', .outcome o, []⟩ ≠ ⟨w'', .outcome o', T'⟩ := by
  rw [Function.iterate_succ_apply]
  have stays : step^[n] (⟨w', .finished (.error (.value .undefined)), []⟩ : Config σ) = _ :=
    Function.iterate_fixed rfl n
  intro same
  cases stays.symm.trans same

end Config

namespace World
variable {w w' : World σ} {T : List (Pending σ)} {op : Operation σ} {o : Outcome}

/-- Nobody who waits for an operation makes a difference to what it comes to. -/
theorem gives_iff (proper : (⟨w.standing, .perform op, T⟩ : Posture σ).Proper) :
    w.Gives T op o w' ↔ w.Gives [] op o w' := by
  constructor
  · rintro ⟨n, ended, above⟩
    rcases Config.performing_cases proper n with busy | ⟨m, less, o₁, w₁, alone, first, -⟩
    · have same := (Config.steps_onto (T := T) busy).symm.trans ended
      exact ⟨n, Config.alone_of_onto same, fun _ _ => List.nil_suffix⟩
    · have rest := Config.LeadsAbove.after above (Nat.le_of_lt less)
      rw [ended, first] at rest
      have there : (⟨w₁, .outcome o₁, T⟩ : Config σ).posture.Proper := by
        rw [← first]
        exact Config.LeadsAbove.proper (T := []) ⟨m, rfl, fun _ _ => List.nil_suffix⟩ proper
      have last := rest.outcome_last there rfl
      obtain ⟨rfl, same, -⟩ := Config.mk.inj last
      obtain rfl := Control.outcome.inj same
      exact ⟨m, alone, fun _ _ => List.nil_suffix⟩
  · rintro ⟨n, ended, -⟩
    rcases Config.performing_cases proper n with busy | ⟨m, less, o₁, w₁, alone, -⟩
    · refine ⟨n, ?_, Config.leadsAbove_of_busy busy⟩
      exact (Config.steps_onto (c := ⟨w, .perform op, []⟩) busy).trans (congrArg (·.onto T) ended)
    · obtain ⟨j, rfl⟩ := Nat.exists_eq_add_of_lt less
      rw [Nat.add_assoc, Nat.add_comm, Function.iterate_add_apply, alone] at ended
      exact absurd ended (Config.iterate_ended j)

/-- An operation that somebody does not wait for any more has come to something. -/
theorem gives_before {K : List (Pending σ)} {d : Config σ}
    (proper : (⟨w.standing, .perform op, T⟩ : Posture σ).Proper)
    (leads : Config.LeadsAbove K ⟨w, .perform op, T⟩ d) (left : ¬ T <:+ d.stack) :
    ∃ o w', w.Gives T op o w' ∧ Config.LeadsAbove K ⟨w', .outcome o, T⟩ d := by
  obtain ⟨n, rfl, above⟩ := leads
  rcases Config.performing_cases proper n with busy | ⟨m, less, o, w', -, first, gives⟩
  · exact absurd (Config.leadsAbove_of_busy busy n (Nat.le_refl n)) left
  · exact ⟨o, w', gives, first ▸ Config.LeadsAbove.after above (Nat.le_of_lt less)⟩

end World

namespace Config
variable {w w' : World σ} {k : Outcome → Client σ} {R : List (Pending σ)} {op : Operation σ} {o : Outcome}

/-- An outcome that host code waits for is the last one. -/
theorem outcome_leads {w₁ : World σ} {o₁ : Outcome} (stacked : Stacked (.perform k :: R)) :
    LeadsAbove (.perform k :: R) ⟨w₁, .outcome o₁, .perform k :: R⟩ ⟨w', .outcome o, .perform k :: R⟩ ↔
      w' = w₁ ∧ o = o₁ := by
  constructor
  · intro leads
    have last := leads.outcome_last ⟨.outcome _ _ trivial, stacked⟩ rfl
    obtain ⟨rfl, same, -⟩ := Config.mk.inj last
    exact ⟨rfl, (Control.outcome.inj same).symm⟩
  · rintro ⟨rfl, rfl⟩
    exact .refl (List.suffix_refl _)

/-- It makes no difference whether an operation is a part of another one. -/
theorem gives_part {f : Pending σ} (stacked : Stacked (.perform k :: R)) (fits : op.Fits (f :: .perform k :: R))
    (waits : f.Fits (.perform k :: R)) :
    w.Gives (f :: .perform k :: R) op o w' ↔ w.Gives (.perform k :: R) op o w' :=
  (World.gives_iff ⟨.perform _ _ fits, .cons waits stacked⟩).trans
    (World.gives_iff ⟨.perform _ _ (.perform _ _ _), stacked⟩).symm

/-- A part of an operation comes to an outcome of its own, with which the operation goes on. -/
theorem part_leads {f : Pending σ} {d : Config σ} (stacked : Stacked (.perform k :: R))
    (fits : op.Fits (f :: .perform k :: R)) (waits : f.Fits (.perform k :: R)) (last : d.stack = .perform k :: R) :
    LeadsAbove (.perform k :: R) ⟨w, .perform op, f :: .perform k :: R⟩ d ↔
      ∃ o₁ w₁, w.Gives (.perform k :: R) op o₁ w₁ ∧
        LeadsAbove (.perform k :: R) (step ⟨w₁, .outcome o₁, f :: .perform k :: R⟩) d := by
  constructor
  · intro leads
    have left : ¬ (f :: .perform k :: R) <:+ d.stack := last ▸ not_cons_suffix _
    obtain ⟨o₁, w₁, gives, rest⟩ := World.gives_before ⟨.perform _ _ fits, .cons waits stacked⟩ leads left
    refine ⟨o₁, w₁, (gives_part stacked fits waits).mp gives, rest.next ?_⟩
    rintro rfl
    exact left (List.suffix_refl _)
  · rintro ⟨o₁, w₁, gives, rest⟩
    have inside : LeadsAbove _ _ _ := (gives_part stacked fits waits).mpr gives
    exact (inside.weaken (List.suffix_cons _ _)).trans (.head (List.suffix_cons _ _) rest)

end Config

end LuaHost
