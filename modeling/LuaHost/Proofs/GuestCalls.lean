import LuaHost.Proofs.Programs
/-!
The calls that are under way on a guest machine, thread by thread. A call from the host opens a gate on the
main thread. What runs above the gate may call, return, fail, and resume threads; it never touches what is
below the gate, nor the threads that were under way when the gate was opened. So when the call is over, all of
them stand as they stood before.
-/

namespace LuaHost.Guest

namespace Frame

def isGate : Frame → Bool
  | gate _ => true
  | _ => false

/-- A function that lies above a gate on the main thread and so cannot be suspended. -/
def IsBound : Frame → Prop
  | compiled a => a.yieldable = false
  | native n => n.yieldable = false
  | handling _ => True
  | bottom | gate _ => False

theorem IsBound.no_gate {f : Frame} (bound : f.IsBound) : f.isGate = false := by
  cases f with
  | gate => exact bound.elim
  | bottom | compiled | native | handling => rfl

/-- A frame that may be put on a thread by what runs there. -/
def MayLie (thread : Nat) (f : Frame) : Prop := if thread = 0 then f.IsBound else f.isGate = false

theorem MayLie.no_gate {thread : Nat} {f : Frame} (may : f.MayLie thread) : f.isGate = false := by
  rw [MayLie] at may
  split at may
  · exact may.no_gate
  · exact may

end Frame

/-- Where a thread stands. -/
structure Strand where
  frames : List Frame
  resumer : Nat
  top : Nat
  baseDepth : Nat

def Thread.strand (t : Thread) : Strand := ⟨t.frame :: t.callers, t.resumer, t.top, t.baseDepth⟩

namespace Machine
variable {m m' m₀ m₁ : Machine}

/-- Where a thread stands, be it the running one or not. -/
def strand? (m : Machine) (i : Nat) : Option Strand :=
  if i = m.current then some ⟨m.frame :: m.callers, m.resumer, m.top, m.baseDepth⟩
  else (m.threads[i]?).map Thread.strand

theorem strand?_current (m : Machine) :
    m.strand? m.current = some ⟨m.frame :: m.callers, m.resumer, m.top, m.baseDepth⟩ := if_pos rfl

theorem strand?_other {i : Nat} (other : i ≠ m.current) : m.strand? i = (m.threads[i]?).map Thread.strand :=
  if_neg other

theorem strand?_cons {i : Nat} {s : Strand} (found : m.strand? i = some s) : ∃ f below, s.frames = f :: below := by
  rw [strand?] at found
  split at found
  · cases found
    exact ⟨_, _, rfl⟩
  · obtain ⟨t, -, rfl⟩ := Option.map_eq_some_iff.mp found
    exact ⟨_, _, rfl⟩

theorem bound_of_phase {i : Nat} (active : m.phase i = .active) : i < m.threads.size := by
  by_contra beyond
  have missing : m.threads[i]? = none := Array.getElem?_eq_none (Nat.le_of_not_lt beyond)
  rw [phase, missing] at active
  cases active

/-- The running thread and the main thread count as active, and gates are opened on the main thread only. -/
structure Orderly (m : Machine) : Prop where
  running : m.phase m.current = .active
  main : m.phase 0 = .active
  free : ∀ i s, i ≠ 0 → m.strand? i = some s → ∀ f ∈ s.frames, f.isGate = false

/-- The threads that a thread was resumed by, one after the other, up to the main thread. -/
def Linked (m : Machine) : Nat → List Nat → Prop
  | i, [] => i = 0
  | i, j :: path => i = j ∧ j ≠ 0 ∧ ∃ s, m.strand? j = some s ∧ m.Linked s.resumer path

/-- A machine runs above a gate that was opened on another one: the frames below the gate are there, the threads
that were active wait where they were, and the thread that runs was resumed, if at all, from above the gate. -/
structure Above (m₀ m : Machine) : Prop where
  before : m₀.Orderly
  orderly : m.Orderly
  main : ∃ g inner s s₀, m.strand? 0 = some s ∧ m₀.strand? 0 = some s₀ ∧
    g.thread = m₀.current ∧ g.savedTop = s₀.top ∧ s.resumer = s₀.resumer ∧ s.baseDepth = s₀.baseDepth ∧
    s.frames = inner ++ .gate g :: s₀.frames ∧ ∀ f ∈ inner, f.IsBound
  held : ∀ i, i ≠ 0 → m₀.phase i = .active →
    i ≠ m.current ∧ m.phase i = .active ∧ m.strand? i = m₀.strand? i
  path : ∃ path, m.Linked m.current path ∧ path.Nodup ∧
    ∀ i ∈ path, m.phase i = .active ∧ m₀.phase i ≠ .active

/-- A machine stands where another one stood. -/
structure Back (m₀ m : Machine) : Prop where
  orderly : m.Orderly
  current : m.current = m₀.current
  kept : ∀ i, m₀.phase i = .active → m.phase i = .active ∧ m.strand? i = m₀.strand? i

theorem Back.refl (orderly : m.Orderly) : Back m m := ⟨orderly, rfl, fun _ active => ⟨active, rfl⟩⟩

theorem Back.trans (first : Back m₀ m₁) (second : Back m₁ m) : Back m₀ m where
  orderly := second.orderly
  current := second.current.trans first.current
  kept := by
    intro i active
    obtain ⟨active, same⟩ := first.kept i active
    obtain ⟨active, same'⟩ := second.kept i active
    exact ⟨active, same'.trans same⟩

/-- A change that is none to the threads. -/
theorem back_of_alike (orderly : m₀.Orderly) (current : m.current = m₀.current)
    (strand : ∀ i, m.strand? i = m₀.strand? i) (phase : ∀ i, m.phase i = m₀.phase i) : Back m₀ m where
  orderly := by
    refine ⟨?_, (phase 0).trans orderly.main, fun i s other found => orderly.free i s other (strand i ▸ found)⟩
    rw [current, phase]
    exact orderly.running
  current := current
  kept i active := ⟨(phase i).trans active, strand i⟩

/-- The running thread stands where it stood. -/
theorem Back.stands (back : Back m₀ m) (orderly : m₀.Orderly) :
    m.frame = m₀.frame ∧ m.callers = m₀.callers ∧ m.top = m₀.top ∧ m.baseDepth = m₀.baseDepth := by
  have same := (back.kept _ orderly.running).2
  rw [← back.current, strand?_current, back.current, strand?_current] at same
  obtain ⟨frames, -, top, baseDepth⟩ := Strand.mk.inj (Option.some.inj same)
  obtain ⟨frame, callers⟩ := List.cons.inj frames
  exact ⟨frame, callers, top, baseDepth⟩

theorem Linked.congr {i : Nat} {path : List Nat}
    (same : ∀ j ∈ path, (m'.strand? j).map Strand.resumer = (m.strand? j).map Strand.resumer)
    (linked : m.Linked i path) : m'.Linked i path := by
  induction path generalizing i with
  | nil => exact linked
  | cons j path ih =>
      obtain ⟨rfl, other, s, found, further⟩ := linked
      have here := same i List.mem_cons_self
      rw [found] at here
      obtain ⟨s', found', resumer⟩ := Option.map_eq_some_iff.mp here
      exact ⟨rfl, other, s', found', resumer ▸ ih (fun j mem => same j (List.mem_cons_of_mem _ mem)) further⟩

/-- A call that was over has left what is above a gate further below where it was. -/
theorem Above.back (above : Above m₀ m₁) (back : Back m₁ m) : Above m₀ m where
  before := above.before
  orderly := back.orderly
  main := by
    obtain ⟨g, inner, s, s₀, found, rest⟩ := above.main
    exact ⟨g, inner, s, s₀, (back.kept 0 above.orderly.main).2.trans found, rest⟩
  held := by
    intro i other active
    obtain ⟨apart, active, same⟩ := above.held i other active
    obtain ⟨active, same'⟩ := back.kept i active
    exact ⟨back.current ▸ apart, active, same'.trans same⟩
  path := by
    obtain ⟨path, linked, nodup, active⟩ := above.path
    refine ⟨path, ?_, nodup, fun i mem => ⟨(back.kept i (active i mem).1).1, (active i mem).2⟩⟩
    rw [back.current]
    exact linked.congr fun j mem => congrArg _ (back.kept j (active j mem).1).2

/-! ### One thread goes on -/

/-- Where the other threads stand, and what the running one was resumed by. -/
def rest (m : Machine) : Nat × Nat × Nat × Array (Strand × Phase) :=
  (m.current, m.resumer, m.baseDepth, m.threads.map fun t => (t.strand, t.phase))

/-- Functions on top of the running thread give way to others. -/
structure Varies (m m' : Machine) : Prop where
  rest : m'.rest = m.rest
  frames : ∃ left entered below, m.frame :: m.callers = left ++ below ∧ m'.frame :: m'.callers = entered ++ below ∧
    (∀ f ∈ left, f.isGate = false) ∧ ∀ f ∈ entered, f.MayLie m.current

theorem Varies.current (varies : m.Varies m') : m'.current = m.current := congrArg Prod.fst varies.rest

theorem Varies.threads (varies : m.Varies m') (i : Nat) :
    (m'.threads[i]?).map (fun t => (t.strand, t.phase)) = (m.threads[i]?).map fun t => (t.strand, t.phase) := by
  have same := congrArg (fun r => r.2.2.2[i]?) varies.rest
  simpa [Machine.rest] using same

theorem Varies.phase (varies : m.Varies m') (i : Nat) : m'.phase i = m.phase i := by
  have same := congrArg (fun o => (o.map Prod.snd).getD .finished) (varies.threads i)
  simpa [Machine.phase, Function.comp_def] using same

theorem Varies.strand? (varies : m.Varies m') {i : Nat} (other : i ≠ m.current) : m'.strand? i = m.strand? i := by
  have same := congrArg (Option.map Prod.fst) (varies.threads i)
  rw [strand?_other other, strand?_other (varies.current.symm ▸ other)]
  simpa only [Option.map_map, Function.comp_def] using same

theorem Varies.resumer (varies : m.Varies m') : m'.resumer = m.resumer :=
  congrArg (fun r => r.2.1) varies.rest

theorem Varies.baseDepth (varies : m.Varies m') : m'.baseDepth = m.baseDepth :=
  congrArg (fun r => r.2.2.1) varies.rest

/-- What lies above a gate is made of the functions above it. -/
theorem split_gate {left below inner base : List Frame} {g : Gate} (same : left ++ below = inner ++ .gate g :: base)
    (no_gate : ∀ f ∈ left, f.isGate = false) : ∃ rest, inner = left ++ rest ∧ below = rest ++ .gate g :: base := by
  induction left generalizing inner with
  | nil => exact ⟨inner, rfl, same⟩
  | cons f left ih =>
      cases inner with
      | nil =>
          obtain rfl := (List.cons.inj same).1
          exact nomatch no_gate _ List.mem_cons_self
      | cons f' inner =>
          obtain ⟨rfl, further⟩ := List.cons.inj same
          obtain ⟨rest, rfl, below⟩ := ih further fun f mem => no_gate f (List.mem_cons_of_mem _ mem)
          exact ⟨rest, rfl, below⟩

theorem Varies.orderly (varies : m.Varies m') (orderly : m.Orderly) : m'.Orderly where
  running := by rw [varies.phase, varies.current, orderly.running]
  main := (varies.phase 0).trans orderly.main
  free := by
    intro i s other found
    by_cases here : i = m.current
    · obtain ⟨left, entered, below, frames, frames', -, may⟩ := varies.frames
      have free := orderly.free _ _ other (here ▸ m.strand?_current)
      rw [here, ← varies.current, strand?_current] at found
      obtain rfl := Option.some.inj found
      simp only [frames, frames'] at free ⊢
      intro f mem
      rcases List.mem_append.mp mem with new | old
      · exact (may f new).no_gate
      · exact free f (List.mem_append_right _ old)
    · exact orderly.free i s other (varies.strand? here ▸ found)

theorem Above.varied (above : Above m₀ m) (varies : m.Varies m') : Above m₀ m' where
  before := above.before
  orderly := varies.orderly above.orderly
  main := by
    obtain ⟨g, inner, s, s₀, found, found₀, thread, savedTop, resumer, baseDepth, frames, bound⟩ := above.main
    by_cases here : 0 = m.current
    · obtain ⟨left, entered, below, split, split', no_gate, may⟩ := varies.frames
      rw [here, strand?_current] at found
      obtain rfl := Option.some.inj found
      obtain ⟨rest, rfl, rfl⟩ := split_gate (split.symm.trans frames) no_gate
      refine ⟨g, entered ++ rest, ⟨m'.frame :: m'.callers, m'.resumer, m'.top, m'.baseDepth⟩, s₀, ?_, found₀,
        thread, savedTop, varies.resumer.trans resumer, varies.baseDepth.trans baseDepth, ?_, ?_⟩
      · rw [here, ← varies.current, strand?_current]
      · rw [split', List.append_assoc]
      · intro f mem
        rcases List.mem_append.mp mem with new | old
        · have may := may f new
          rwa [Frame.MayLie, if_pos here.symm] at may
        · exact bound f (List.mem_append_right _ old)
    · exact ⟨g, inner, s, s₀, (varies.strand? here).trans found, found₀, thread, savedTop, resumer, baseDepth,
        frames, bound⟩
  held := by
    intro i other active
    obtain ⟨apart, active, same⟩ := above.held i other active
    exact ⟨varies.current ▸ apart, (varies.phase i).trans active, (varies.strand? apart).trans same⟩
  path := by
    obtain ⟨path, linked, nodup, active⟩ := above.path
    refine ⟨path, ?_, nodup, fun i mem => ⟨(varies.phase i).trans (active i mem).1, (active i mem).2⟩⟩
    rw [varies.current]
    refine linked.congr fun j mem => ?_
    by_cases here : j = m.current
    · rw [here, strand?_current, ← varies.current, strand?_current]
      exact congrArg some varies.resumer
    · rw [varies.strand? here]

/-! ### Threads take turns -/

/-- Another thread has been taken up, or the same one again. -/
structure Taken (m : Machine) (phase : Phase) (j : Nat) (m' : Machine) : Prop where
  current : m'.current = j
  strand? : ∀ i, m'.strand? i = m.strand? i
  phase : ∀ i, m'.phase i = if i = j then .active else if i = m.current then phase else m.phase i
  signal : m'.signal = m.signal

theorem switch_taken (running : m.current < m.threads.size) {j : Nat} (there : j < m.threads.size) (phase : Phase) :
    m.Taken phase j ((m.park phase).switch j) := by
  let parked : Thread :=
    { stack := m.stack, top := m.top, frame := m.frame, callers := m.callers, openCells := m.openCells
      baseDepth := m.baseDepth, phase, resumer := m.resumer }
  have threads (i : Nat) : (m.park phase).threads[i]? = if i = m.current then some parked else m.threads[i]? := by
    rw [park, Array.getElem?_setIfInBounds]
    by_cases here : i = m.current
    · rw [if_pos here.symm, if_pos running, if_pos here]
    · rw [if_neg (Ne.symm here), if_neg here]
  have found : ∃ t, (m.park phase).threads[j]? = some t ∧ some t.strand = m.strand? j := by
    by_cases here : j = m.current
    · exact ⟨parked, by rw [threads, if_pos here], by rw [here, strand?_current]; rfl⟩
    · obtain ⟨t, found⟩ : ∃ t, m.threads[j]? = some t := ⟨_, Array.getElem?_eq_getElem there⟩
      exact ⟨t, by rw [threads, if_neg here, found], by rw [strand?_other here, found]; rfl⟩
  obtain ⟨t, found, strand⟩ := found
  have size : j < (m.park phase).threads.size := (Array.getElem?_eq_some_iff.mp found).1
  have others (i : Nat) : ((m.park phase).switch j).threads[i]? =
      if i = j then some { phase := .active } else if i = m.current then some parked else m.threads[i]? := by
    simp only [switch, found]
    rw [Array.getElem?_setIfInBounds]
    by_cases here : i = j
    · rw [if_pos here.symm, if_pos size, if_pos here]
    · rw [if_neg (Ne.symm here), if_neg here, threads]
  have current : ((m.park phase).switch j).current = j := (switch_found found).2.2.1
  refine ⟨current, ?_, ?_, ?_⟩
  · intro i
    by_cases here : i = j
    · have stands := ((m.park phase).switch j).strand?_current
      rw [current] at stands
      rw [here, ← strand, stands]
      simp only [switch, found]
      rfl
    · rw [strand?_other (current.symm ▸ here), others, if_neg here]
      by_cases old : i = m.current
      · rw [if_pos old, old, strand?_current]
        rfl
      · rw [if_neg old, strand?_other old]
  · intro i
    rw [Machine.phase, others]
    split
    · rfl
    · split
      · rfl
      · rfl
  · simp only [switch, found]
    rfl

/-- A thread that is taken up leaves everything in order if the main thread is not put to sleep. -/
theorem Taken.orderly {phase : Phase} {j : Nat} (taken : m.Taken phase j m') (orderly : m.Orderly)
    (awake : m.current = 0 → phase = .active) : m'.Orderly where
  running := by rw [taken.phase, taken.current, if_pos rfl]
  main := by
    rw [taken.phase]
    split
    · rfl
    · split
      · next here => exact awake here.symm
      · exact orderly.main
  free := fun i s other found => orderly.free i s other (taken.strand? i ▸ found)

theorem Taken.linked {phase : Phase} {j i : Nat} {path : List Nat} (taken : m.Taken phase j m')
    (linked : m.Linked i path) : m'.Linked i path :=
  linked.congr fun j _ => congrArg _ (taken.strand? j)

/-- The running thread gives way to the one that resumed it. -/
theorem Above.returned (above : Above m₀ m) (other : m.current ≠ 0) (phase : Phase) :
    Above m₀ ((m.park phase).switch m.resumer) := by
  obtain ⟨path, linked, nodup, active⟩ := above.path
  cases path with
  | nil => exact absurd linked other
  | cons i path =>
      obtain ⟨rfl, -, s, found, linked⟩ := linked
      rw [strand?_current] at found
      obtain rfl := Option.some.inj found
      obtain ⟨fresh, nodup⟩ := List.nodup_cons.mp nodup
      have further : m.resumer = 0 ∨ m.resumer ∈ path := by
        cases path with
        | nil => exact .inl linked
        | cons j path => exact .inr (linked.1 ▸ List.mem_cons_self)
      have goesOn : m.phase m.resumer = .active := by
        rcases further with main | mem
        · rw [main, above.orderly.main]
        · exact (active _ (List.mem_cons_of_mem _ mem)).1
      have taken := switch_taken (bound_of_phase above.orderly.running) (bound_of_phase goesOn) phase
      have awake : ∀ i, i ≠ m.current → m.phase i = .active →
          ((m.park phase).switch m.resumer).phase i = .active := by
        intro i apart active
        rw [taken.phase]
        split
        · rfl
        · exact active
      refine ⟨above.before, taken.orderly above.orderly fun main => absurd main other, ?_, ?_, path, ?_, nodup, ?_⟩
      · rw [taken.strand?]
        exact above.main
      · intro i positive held
        obtain ⟨apart, active', same⟩ := above.held i positive held
        refine ⟨?_, awake i apart active', (taken.strand? i).trans same⟩
        rw [taken.current]
        rintro rfl
        rcases further with main | mem
        · exact positive main
        · exact (active _ (List.mem_cons_of_mem _ mem)).2 held
      · rw [taken.current]
        exact taken.linked linked
      · intro i mem
        obtain ⟨active, new⟩ := active i (List.mem_cons_of_mem _ mem)
        exact ⟨awake i (fun same => fresh (same ▸ mem)) active, new⟩

/-- The running thread resumes one that sleeps. -/
theorem Above.resumed (above : Above m₀ m) {j : Nat} (there : j < m.threads.size) (asleep : m.phase j ≠ .active)
    (depth : Nat) : Above m₀ { (m.park .active).switch j with baseDepth := depth, resumer := m.current } := by
  have taken := switch_taken (bound_of_phase above.orderly.running) there .active
  have positive : j ≠ 0 := fun main => asleep (main ▸ above.orderly.main)
  have new : j ≠ m.current := fun same => asleep (same ▸ above.orderly.running)
  let next : Machine := { (m.park .active).switch j with baseDepth := depth, resumer := m.current }
  have current : next.current = j := taken.current
  have stands : next.strand? j = some ⟨next.frame :: next.callers, m.current, next.top, depth⟩ := by
    have here := next.strand?_current
    rwa [current] at here
  have before : m.strand? j = some ⟨next.frame :: next.callers, ((m.park .active).switch j).resumer, next.top,
      ((m.park .active).switch j).baseDepth⟩ := by
    have here := ((m.park .active).switch j).strand?_current
    rw [taken.current, taken.strand?] at here
    exact here
  have others (i : Nat) (other : i ≠ j) : next.strand? i = m.strand? i := by
    rw [← taken.strand?, strand?_other (current.symm ▸ other), strand?_other (taken.current.symm ▸ other)]
  have awake (i : Nat) (active : m.phase i = .active) : next.phase i = .active := by
    refine (taken.phase i).trans ?_
    split
    · rfl
    · split
      · rfl
      · exact active
  obtain ⟨path, linked, nodup, active⟩ := above.path
  have outside : j ∉ path := fun mem => asleep (active j mem).1
  have orderly := taken.orderly above.orderly fun _ => rfl
  refine ⟨above.before, ⟨orderly.running, orderly.main, ?_⟩, ?_, ?_, j :: path, ?_, ?_, ?_⟩
  · intro i s other found
    by_cases here : i = j
    · rw [here, stands] at found
      obtain rfl := Option.some.inj found
      exact fun f mem => above.orderly.free j _ positive before f mem
    · exact above.orderly.free i s other (others i here ▸ found)
  · rw [others 0 positive.symm]
    exact above.main
  · intro i other held
    obtain ⟨apart, active, same⟩ := above.held i other held
    have elsewhere : i ≠ j := fun same => asleep (same ▸ active)
    exact ⟨current.symm ▸ elsewhere, awake i active, (others i elsewhere).trans same⟩
  · refine ⟨current, positive, _, stands, ?_⟩
    exact linked.congr fun i mem => congrArg _ (others i fun same => outside (same ▸ mem))
  · exact List.nodup_cons.mpr ⟨outside, nodup⟩
  · intro i mem
    rcases List.mem_cons.mp mem with same | mem
    · have running : next.phase next.current = .active := orderly.running
      rw [current] at running
      rw [same]
      exact ⟨running, fun held => asleep (above.held j positive held).2.1⟩
    · exact ⟨awake i (active i mem).1, (active i mem).2⟩

/-! ### Gates -/

theorem onMain_taken (orderly : m.Orderly) : m.Taken .active 0 m.onMain := by
  by_cases main : m.current = 0
  · rw [onMain_of_main main]
    refine ⟨main, fun _ => rfl, fun i => ?_, rfl⟩
    split
    · next here => rw [here, orderly.main]
    · split
      · next here => rw [here, orderly.running]
      · rfl
  · rw [onMain_of_other main]
    exact switch_taken (bound_of_phase orderly.running) (bound_of_phase orderly.main) .active

theorem Taken.awake {j : Nat} (taken : m.Taken .active j m') {i : Nat} (active : m.phase i = .active) :
    m'.phase i = .active := by
  rw [taken.phase]
  split
  · rfl
  · split
    · rfl
    · exact active

/-- What the machine stops for, if anything, is what the library function on top asks of the host. -/
def Asks (m : Machine) : Prop :=
  ∀ signal, m.signal = some signal → ¬ signal.IsOver ∧ ∃ n, m.frame = .native n

/-- A machine runs above a gate. -/
structure Runs (m₀ m : Machine) : Prop where
  above : Above m₀ m
  idle : m.signal = none

/-- What has run above a gate goes on or asks for something, or the call is over and all is as it was before. -/
def Goes (m₀ m : Machine) : Prop :=
  Above m₀ m ∧ m.Asks ∨ Back m₀ m ∧ ∃ signal, m.signal = some signal ∧ signal.IsOver

theorem Runs.asks (runs : Runs m₀ m) : m.Asks := fun _ some => nomatch runs.idle.symm.trans some

theorem Runs.goes (runs : Runs m₀ m) : Goes m₀ m := .inl ⟨runs.above, runs.asks⟩

theorem enterGate_runs (orderly : m.Orderly) : Runs m m.enterGate := by
  have taken := onMain_taken orderly
  have stands := m.onMain.strand?_current
  rw [taken.current] at stands
  have current : m.enterGate.current = 0 := taken.current
  have main : m.enterGate.strand? 0 = some ⟨m.enterGate.frame :: m.enterGate.callers, m.enterGate.resumer,
      m.enterGate.top, m.enterGate.baseDepth⟩ := by
    conv_lhs => rw [← current]
    exact m.enterGate.strand?_current
  have others (i : Nat) (other : i ≠ 0) : m.enterGate.strand? i = m.strand? i := by
    rw [← taken.strand?, strand?_other (current.symm ▸ other), strand?_other (taken.current.symm ▸ other)]
    rfl
  have awake (i : Nat) (active : m.phase i = .active) : m.enterGate.phase i = .active := taken.awake active
  refine ⟨⟨orderly, ⟨?_, awake 0 orderly.main, ?_⟩, ?_, ?_, [], current, List.nodup_nil, fun i mem => nomatch mem⟩,
    rfl⟩
  · rw [current]
    exact awake 0 orderly.main
  · exact fun i s other found => orderly.free i s other (others i other ▸ found)
  · refine ⟨⟨m.onMain.top, m.onMain.frame.depth, m.current⟩, [], _, _, main, (taken.strand? 0).symm.trans stands,
      rfl, rfl, rfl, rfl, rfl, fun f mem => nomatch mem⟩
  · exact fun i other active => ⟨current.symm ▸ other, awake i active, others i other⟩

/-- The gate that a machine runs above lies on the main thread, on what was there before. -/
structure Opened (m₀ m : Machine) (g : Gate) (s₀ : Strand) : Prop where
  main : m.current = 0
  found : m₀.strand? 0 = some s₀
  thread : g.thread = m₀.current
  savedTop : g.savedTop = s₀.top
  resumer : m.resumer = s₀.resumer
  baseDepth : m.baseDepth = s₀.baseDepth

/-- A frame that is reached without a gate in between may lie there, or it is the gate. -/
theorem Above.reaches (above : Above m₀ m) {left below : List Frame} {f : Frame}
    (split : m.frame :: m.callers = left ++ f :: below) (no_gate : ∀ f ∈ left, f.isGate = false) :
    f.MayLie m.current ∨ ∃ g s₀, f = .gate g ∧ below = s₀.frames ∧ Opened m₀ m g s₀ := by
  by_cases main : m.current = 0
  · obtain ⟨g, inner, s, s₀, found, found₀, thread, savedTop, resumer, baseDepth, frames, bound⟩ := above.main
    have here := m.strand?_current
    rw [main, found] at here
    obtain rfl := Option.some.inj here
    obtain ⟨rest, rfl, further⟩ := split_gate (split.symm.trans frames) no_gate
    cases rest with
    | nil =>
        obtain ⟨rfl, rfl⟩ := List.cons.inj further
        exact .inr ⟨g, s₀, rfl, rfl, main, found₀, thread, savedTop, resumer, baseDepth⟩
    | cons f' rest =>
        obtain rfl := (List.cons.inj further).1
        rw [Frame.MayLie, if_pos main]
        exact .inl (bound f (List.mem_append_right _ List.mem_cons_self))
  · rw [Frame.MayLie, if_neg main]
    refine .inl (above.orderly.free _ _ main m.strand?_current f ?_)
    rw [split]
    exact List.mem_append_right _ List.mem_cons_self

/-- Once the gate is left, everything stands as it stood before the gate was opened. -/
theorem Above.leaves (above : Above m₀ m) {g : Gate} {s₀ : Strand} (opened : Opened m₀ m g s₀) (signal : Signal) :
    Back m₀ (m.leaveGate g s₀.frames signal) ∧ (m.leaveGate g s₀.frames signal).signal = some signal := by
  obtain ⟨f, below, frames⟩ := strand?_cons opened.found
  let left : Machine := { m with
    frame := s₀.frames.headD .bottom, callers := s₀.frames.tail, top := g.savedTop, signal := some signal }
  have current : left.current = 0 := opened.main
  have main : left.strand? 0 = m₀.strand? 0 := by
    have stands := left.strand?_current
    rw [current] at stands
    rw [stands, opened.found]
    have same : left.frame :: left.callers = s₀.frames := by
      show s₀.frames.headD .bottom :: s₀.frames.tail = s₀.frames
      rw [frames]
      rfl
    rw [same]
    exact congrArg some (Strand.mk.injEq .. ▸ ⟨rfl, opened.resumer, opened.savedTop, opened.baseDepth⟩)
  have others (i : Nat) (other : i ≠ 0) : left.strand? i = m.strand? i := by
    rw [strand?_other (current.symm ▸ other), strand?_other (opened.main.symm ▸ other)]
  have kept (i : Nat) (active : m₀.phase i = .active) : left.phase i = .active ∧ left.strand? i = m₀.strand? i := by
    by_cases here : i = 0
    · exact ⟨here ▸ above.orderly.main, here ▸ main⟩
    · obtain ⟨-, active, same⟩ := above.held i here active
      exact ⟨active, (others i here).trans same⟩
  have orderly : left.Orderly :=
    ⟨above.orderly.running, above.orderly.main, fun i s other found => above.orderly.free i s other (others i other ▸ found)⟩
  have leaves : m.leaveGate g s₀.frames signal =
      if g.thread == left.current then left else (left.park .active).switch g.thread := rfl
  rw [leaves]
  by_cases here : g.thread = left.current
  · rw [if_pos (beq_iff_eq.mpr here)]
    exact ⟨⟨orderly, here.symm.trans opened.thread, kept⟩, rfl⟩
  · rw [if_neg (by rwa [beq_iff_eq])]
    have there : left.phase g.thread = .active :=
      (kept _ (opened.thread ▸ above.before.running)).1
    have taken := switch_taken (bound_of_phase orderly.running) (bound_of_phase there) .active
    refine ⟨⟨taken.orderly orderly fun _ => rfl, taken.current.trans opened.thread, fun i active => ?_⟩,
      taken.signal⟩
    exact ⟨taken.awake (kept i active).1, (taken.strand? i).trans (kept i active).2⟩

/-! ### Parts of a step -/

/-- What a change to registers and to the heap leaves as it is. -/
def outline (m : Machine) : (Nat × Nat × Nat × Array (Strand × Phase)) × Frame × List Frame × Option Signal :=
  (m.rest, m.frame, m.callers, m.signal)

@[simp] theorem put_outline (m : Machine) (i : Nat) (v : Value) : (m.put i v).outline = m.outline := rfl

@[simp] theorem ensure_outline (m : Machine) (size : Nat) : (m.ensure size).outline = m.outline := by
  rw [ensure]
  split <;> rfl

@[simp] theorem putAll_outline (m : Machine) (start : Nat) (values : List Value) :
    (m.putAll start values).outline = m.outline :=
  m.ensure_outline (start + values.length)

@[simp] theorem setCell_outline (m : Machine) (cell : Nat) (v : Value) : (m.setCell cell v).outline = m.outline := by
  rw [setCell]
  split
  · rfl
  · next thread i found =>
      split
      · rfl
      · have same := map_modify m.threads thread (fun t => { t with stack := t.stack.setIfInBounds i v })
          (fun t => (t.strand, t.phase)) id fun _ => rfl
        rw [modify_id] at same
        simp only [outline, rest, same]

@[simp] theorem capture_outline (m : Machine) (place : Nat) : (m.capture place).1.outline = m.outline := by
  rw [capture]
  split <;> rfl

@[simp] theorem closeCells_outline (m : Machine) (level : Nat) : (m.closeCells level).outline = m.outline := by
  rw [closeCells]
  split
  · rfl
  · split <;> rfl

theorem rest_of_outline (same : m'.outline = m.outline) : m'.rest = m.rest := congrArg Prod.fst same

theorem frame_of_outline (same : m'.outline = m.outline) : m'.frame = m.frame := congrArg (·.2.1) same

theorem callers_of_outline (same : m'.outline = m.outline) : m'.callers = m.callers := congrArg (·.2.2.1) same

theorem signal_of_outline (same : m'.outline = m.outline) : m'.signal = m.signal := congrArg (·.2.2.2) same

/-- The function on top gives way to another one. -/
theorem varies_replaced (rest : m'.rest = m.rest) (callers : m'.callers = m.callers)
    (no_gate : m.frame.isGate = false) (may : m'.frame.MayLie m.current) : m.Varies m' :=
  ⟨rest, [m.frame], [m'.frame], m.callers, rfl, congrArg _ callers, by simpa using no_gate, by simpa using may⟩

/-- A function is entered. -/
theorem varies_entered (rest : m'.rest = m.rest) (callers : m'.callers = m.frame :: m.callers)
    (may : m'.frame.MayLie m.current) : m.Varies m' :=
  ⟨rest, [], [m'.frame], m.frame :: m.callers, rfl, congrArg _ callers, List.forall_mem_nil _, by simpa using may⟩

theorem Runs.varied (runs : Runs m₀ m) (varies : m.Varies m') (signal : m'.signal = m.signal) : Runs m₀ m' :=
  ⟨runs.above.varied varies, signal.trans runs.idle⟩

theorem Runs.congr (runs : Runs m₀ m) (same : m'.outline = m.outline) : Runs m₀ m' := by
  refine runs.varied ⟨rest_of_outline same, [], [], _, rfl, ?_, List.forall_mem_nil _, List.forall_mem_nil _⟩
    (signal_of_outline same)
  rw [frame_of_outline same, callers_of_outline same]
  rfl

/-- The frame on top may lie there, if it is not the gate. -/
theorem Above.may_lie (above : Above m₀ m) (no_gate : m.frame.isGate = false) : m.frame.MayLie m.current := by
  rcases @Above.reaches _ _ above [] _ _ rfl (List.forall_mem_nil _) with may | ⟨g, s₀, gate, -⟩
  · exact may
  · rw [gate] at no_gate
    cases no_gate

/-- A library function goes on with something else. -/
theorem Runs.become {n : NativeCall} (runs : Runs m₀ m) (frame : m.frame = .native n) (activity : Activity) :
    Runs m₀ (m.become n activity) := by
  have no_gate : m.frame.isGate = false := by
    rw [frame]
    rfl
  refine runs.varied (varies_replaced rfl rfl no_gate ?_) rfl
  have may := runs.above.may_lie no_gate
  rwa [frame] at may

theorem switch_signal (m : Machine) (i : Nat) : (m.switch i).signal = m.signal := by
  rw [switch]
  split <;> rfl

theorem returnToResumer_runs (runs : Runs m₀ m) (other : m.current ≠ 0) (phase : Phase) (ok : Bool)
    (values : List Value) : Runs m₀ (m.returnToResumer phase ok values) := by
  have back : Runs m₀ ((m.park phase).switch m.resumer) := by
    refine ⟨runs.above.returned other phase, ?_⟩
    rw [switch_signal]
    exact runs.idle
  simp only [returnToResumer]
  split
  · next n frame =>
      split
      · exact back.become frame _
      · exact back
  · exact back

/-- Unwinding stops at a function that protects its call, or at the gate. -/
theorem unwindTo_goes (runs : Runs m₀ m) (status : Status) (error : Value) {left frames : List Frame}
    (split : m.frame :: m.callers = left ++ frames) (no_gate : ∀ f ∈ left, f.isGate = false) :
    Goes m₀ (m.unwindTo status error frames) := by
  induction frames generalizing left with
  | nil => exact runs.goes
  | cons f below ih =>
      have passed (plain : f.isGate = false) : ∀ f' ∈ left ++ [f], f'.isGate = false := by
        intro f' mem
        rcases List.mem_append.mp mem with earlier | here
        · exact no_gate f' earlier
        · exact List.mem_singleton.mp here ▸ plain
      have further : m.frame :: m.callers = (left ++ [f]) ++ below := by
        rw [split, List.append_assoc, List.singleton_append]
      have reaches := runs.above.reaches split no_gate
      cases f with
      | bottom =>
          rcases reaches with may | ⟨g, s₀, gate, -⟩
          · refine (returnToResumer_runs runs (fun main => ?_) _ _ _).goes
            rw [Frame.MayLie, if_pos main] at may
            exact may
          · cases gate
      | gate g =>
          rcases reaches with may | ⟨_, s₀, gate, rfl, opened⟩
          · exact absurd may.no_gate (by simp [Frame.isGate])
          · cases gate
            have same := m.closeCells_outline g.savedTop
            have rest := rest_of_outline same
            have opened : Opened m₀ (m.closeCells g.savedTop) g s₀ :=
              { opened with
                main := (congrArg Prod.fst rest).trans opened.main
                resumer := (congrArg (·.2.1) rest).trans opened.resumer
                baseDepth := (congrArg (·.2.2.1) rest).trans opened.baseDepth }
            obtain ⟨back, signal⟩ := (runs.congr same).above.leaves opened (.failed status error m.traceback)
            exact .inr ⟨back, _, signal, trivial⟩
      | native n =>
          rw [unwindTo]
          split
          · next handler level k protecting =>
              rcases reaches with may | ⟨g, s₀, gate, -⟩
              · have rest := rest_of_outline (m.closeCells_outline level)
                have signal := signal_of_outline (m.closeCells_outline level)
                refine Runs.goes (runs.varied ?_ signal)
                refine ⟨rest, _, [_], below, further, rfl, passed rfl, ?_⟩
                intro f mem
                rw [List.mem_singleton.mp mem]
                exact may
              · cases gate
          · exact ih further (passed rfl)
      | compiled | handling => exact ih further (passed rfl)

theorem unwind_goes (runs : Runs m₀ m) (status : Status) (error : Value) : Goes m₀ (m.unwind status error) :=
  @unwindTo_goes _ _ runs status _ [] _ rfl (List.forall_mem_nil _)

end Machine

end LuaHost.Guest
