import LuaHost.Proofs.Sights
/-!
How many slots a session holds: one for each handle that has not been given back, and one for each chunk that is
compiled. In a session that is open these are just the slots that have an object in them, so that no slot is
occupied that nobody could give back.
-/

namespace LuaHost

/-- Exchanging one item changes the count by what the old and the new one count for. -/
theorem countP_setIfInBounds {α : Type} (p : α → Bool) (a : Array α) {i : Nat} (y : α) {x : α}
    (here : a[i]? = some x) :
    (a.setIfInBounds i y).countP p + (if p x then 1 else 0) = a.countP p + (if p y then 1 else 0) := by
  obtain ⟨bound, rfl⟩ := Array.getElem?_eq_some_iff.mp here
  have counted : (if p a[i] then 1 else 0) ≤ a.countP p := by
    split
    · next counts => exact Array.countP_pos_iff.mpr ⟨_, Array.getElem_mem bound, counts⟩
    · exact Nat.zero_le _
  rw [Array.setIfInBounds, dif_pos bound, Array.countP_set bound]
  omega

theorem modify_eq_set {α : Type} (a : Array α) {i : Nat} (f : α → α) {x : α} (here : a[i]? = some x) :
    a.modify i f = a.setIfInBounds i (f x) := by
  apply Array.ext_getElem?
  intro j
  rw [Array.getElem?_modify, Array.getElem?_setIfInBounds]
  split
  · next same =>
      subst same
      rw [if_pos (Array.getElem?_eq_some_iff.mp here).1, here]
      rfl
  · rfl

namespace Guest.Slots
variable {s : Slots}

/-- The number of slots with an object in them. -/
def used (s : Slots) : Nat := s.objects.countP Option.isSome

theorem WF.used_pin (wf : s.WF) (v : Value) : (s.pin v).used = s.used + 1 := by
  rcases free : s.free with _ | ⟨slot, rest⟩
  · simp [used, Slots.pin, free]
  · obtain ⟨bound, empty⟩ := wf.empty slot (free ▸ List.mem_cons_self)
    have here : s.objects[slot]? = some none := by
      rw [get?, Array.getElem?_eq_getElem bound] at empty
      rw [Array.getElem?_eq_getElem bound]
      exact congrArg some empty
    have counted := countP_setIfInBounds Option.isSome s.objects (some v) here
    simp only [used, Slots.pin, free]
    exact counted

theorem used_unpin {slot : Nat} {v : Value} (kept : s.get? slot = some v) :
    (s.unpin slot).used + 1 = s.used := by
  rw [get?, Option.bind_eq_some_iff] at kept
  obtain ⟨content, here, rfl⟩ := kept
  exact countP_setIfInBounds Option.isSome s.objects none here

end Guest.Slots

namespace Ledger
variable (l : Ledger)

/-- The handles that have not been given back, and the chunks that are compiled. -/
def held : Nat := l.handles.countP (!·.released) + l.compiled.length

theorem slotsInUse_eq : l.slotsInUse = if l.closed then 0 else l.held := by
  rw [slotsInUse, held, ← Array.countP_toList, List.countP_eq_length_filter]

theorem held_addHandle (slot : Nat) : (l.addHandle slot).held = l.held + 1 := by
  simp [held, addHandle]
  omega

theorem held_addCompiled (chunk slot : Nat) : (l.addCompiled chunk slot).held = l.held + 1 := by
  simp [held, addCompiled]
  omega

/-- A chunk is in the account once at most. -/
def Nodup : Prop := (l.compiled.map (·.1)).Nodup

variable {l}

theorem held?_addHandle (slot : Nat) {x : Holder} (held : l.held? x ≠ none) :
    (l.addHandle slot).held? x ≠ none := by
  cases x with
  | chunk => exact held
  | handle h =>
      have other : h.index ≠ l.nextHandle := by
        intro same
        exact held (by simp [held?, slot?, same, nextHandle])
      rwa [held?, l.slot?_addHandle_other slot other]

theorem held?_addCompiled (chunk slot : Nat) {x : Holder} (held : l.held? x ≠ none) :
    (l.addCompiled chunk slot).held? x ≠ none := by
  cases x with
  | handle => exact held
  | chunk session other =>
      by_cases same : other = chunk
      · rw [held?, same, compiledSlot?_addCompiled]
        exact Option.some_ne_none slot
      · rwa [held?, l.compiledSlot?_addCompiled_other slot same]

theorem held_releaseHandle {index slot : Nat} (taken : l.slot? index = some slot) :
    (l.releaseHandle index).held + 1 = l.held := by
  rw [slot?] at taken
  split at taken
  · next record here =>
      split at taken
      · cases taken
      · next unreleased =>
          have counted := countP_setIfInBounds (!·.released) l.handles { record with released := true } here
          simp only [Bool.not_eq_true] at unreleased
          simp only [unreleased] at counted
          rw [held, releaseHandle, modify_eq_set _ _ here, held]
          simp only [Bool.not_false, ↓reduceIte, Bool.not_true, Bool.false_eq_true] at counted ⊢
          omega
  · cases taken

theorem compiledSlot?_eq_none {chunk : Nat} :
    l.compiledSlot? chunk = none ↔ chunk ∉ l.compiled.map (·.1) := by
  simp only [compiledSlot?, Option.map_eq_none_iff, List.find?_eq_none, List.mem_map, beq_iff_eq]
  constructor
  · rintro none ⟨entry, mem, same⟩
    exact none entry mem same
  · exact fun none entry mem same => none ⟨entry, mem, same⟩

theorem Nodup.addCompiled (nodup : l.Nodup) {chunk : Nat} (new : l.compiledSlot? chunk = none)
    (slot : Nat) : (l.addCompiled chunk slot).Nodup :=
  List.nodup_cons.mpr ⟨compiledSlot?_eq_none.mp new, nodup⟩

theorem Nodup.removeCompiled (nodup : l.Nodup) (chunk : Nat) : (l.removeCompiled chunk).Nodup :=
  nodup.sublist (List.filter_sublist.map _)

theorem held_removeCompiled (nodup : l.Nodup) {chunk slot : Nat}
    (taken : l.compiledSlot? chunk = some slot) : (l.removeCompiled chunk).held + 1 = l.held := by
  have once : l.compiled.countP (·.1 == chunk) = 1 := by
    have mem : chunk ∈ l.compiled.map (·.1) := by
      by_contra absent
      exact nomatch taken.symm.trans (compiledSlot?_eq_none.mpr absent)
    have counted := List.Nodup.count nodup (a := chunk)
    rw [if_pos mem, List.count_eq_countP, List.countP_map] at counted
    exact counted
  have others : (l.compiled.filter (·.1 != chunk)).length =
      l.compiled.countP fun x => decide ¬(x.1 == chunk) = true := by
    rw [← List.countP_eq_length_filter]
    exact List.countP_congr fun x _ => by simp
  have parts := List.length_eq_countP_add_countP (l := l.compiled) (·.1 == chunk)
  simp only [held, removeCompiled, others]
  omega

end Ledger

/-- Values that take a slot when the host is handed them. -/
def Guest.Value.isObject : Guest.Value → Bool
  | nil | bool _ | int _ | float _ | string _ => false
  | _ => true

namespace World
variable {σ : Type} {w w' w'' : World σ} {session : Nat}

/-- The slots that a session holds, be it open or closed. -/
def held (w : World σ) (session : Nat) : Nat := (w.ledger session).held

theorem held_congr (same : w'.holdings = w.holdings) (session : Nat) :
    w'.held session = w.held session := by
  simp only [held, Ledger.held, handles_eq, compiled_eq, same]

theorem held_modifyLedger (f : Ledger → Ledger) (bound : session < w.ledgers.size) (s : Nat) :
    (w.modifyLedger session f).held s =
      if s = session then (f (w.ledger session)).held else w.held s := by
  rw [held, ledger_modifyLedger]
  by_cases same : s = session
  · subst same
    rw [if_pos ⟨rfl, bound⟩, if_pos rfl]
  · rw [if_neg fun h => same h.1.symm, if_neg same, held]

/-! ### More slots and fewer -/

/-- Neither holders nor chunks are touched. -/
def Untouched (w w' : World σ) : Prop := w'.holdings = w.holdings ∧ w'.chunks = w.chunks

theorem untouched_disregards : Disregards (Untouched (σ := σ)) where
  refl := fun _ => ⟨rfl, rfl⟩
  trans := fun first second => ⟨second.1.trans first.1, second.2.trans first.2⟩
  memory := fun _ _ => ⟨rfl, rfl⟩
  identity := fun _ => ⟨rfl, rfl⟩
  raised := fun _ _ => ⟨rfl, rfl⟩
  machines := fun w session f same => ⟨w.modifyMachine_holdings session f same, rfl⟩
  marks := fun w session f same _ => ⟨w.modifyLedger_holdings session f same, rfl⟩

/-- What is compiled has been loaded. -/
def Loaded (w : World σ) : Prop :=
  ∀ session chunk, w.slot? (.chunk session chunk) ≠ none → chunk < w.chunks.size

/-- A session holds so many slots more, and the other sessions do not notice. Whoever has a slot keeps it. -/
structure Gains (w w' : World σ) (session count : Nat) : Prop where
  held : ∀ s, w'.held s = w.held s + if s = session then count else 0
  sizes : w.ledgers.size ≤ w'.ledgers.size
  keeps : ∀ x, w.slot? x ≠ none → w'.slot? x ≠ none
  loaded : w.Loaded → w'.Loaded

theorem Untouched.gains (untouched : Untouched w w') (session : Nat) : Gains w w' session 0 where
  held := fun s => by rw [held_congr untouched.1, ite_self, Nat.add_zero]
  sizes := Nat.le_of_eq (sizes_congr untouched.1).1.symm
  keeps := fun x held => by rwa [slot?_congr untouched.1]
  loaded := by
    intro loaded s chunk held
    rw [untouched.2]
    rw [slot?_congr untouched.1] at held
    exact loaded s chunk held

theorem Gains.refl (w : World σ) (session : Nat) : Gains w w session 0 :=
  Untouched.gains ⟨rfl, rfl⟩ session

theorem Gains.trans {m n : Nat} (first : Gains w w' session m) (second : Gains w' w'' session n) :
    Gains w w'' session (m + n) where
  held := by
    intro s
    rw [second.held, first.held, Nat.add_assoc]
    split <;> rfl
  sizes := Nat.le_trans first.sizes second.sizes
  keeps := fun x held => second.keeps x (first.keeps x held)
  loaded := fun loaded => second.loaded (first.loaded loaded)

theorem occupy_held (bound : session < w.ledgers.size) (v : Guest.Value) {f : Ledger → Ledger}
    (more : ∀ l, (f l).held = l.held + 1) (s : Nat) :
    ((w.occupy session v).1.modifyLedger session f).held s =
      w.held s + if s = session then 1 else 0 := by
  rw [held_modifyLedger f (show session < (w.occupy session v).1.ledgers.size from bound)]
  split
  · next same =>
      subst same
      exact more _
  · rfl

/-- An object takes a slot, and the session makes a note of it. -/
theorem occupy_gains (bound : session < w.ledgers.size) (v : Guest.Value) {f : Ledger → Ledger}
    (more : ∀ l, (f l).held = l.held + 1) (keeps : ∀ l x, l.held? x ≠ none → (f l).held? x ≠ none)
    (loaded : ∀ l chunk, (f l).compiledSlot? chunk ≠ none →
      l.compiledSlot? chunk ≠ none ∨ chunk < w.chunks.size) :
    Gains w ((w.occupy session v).1.modifyLedger session f) session 1 where
  held := occupy_held bound v more
  sizes := Nat.le_of_eq (by simp [occupy, modifyMachine, modifyLedger])
  keeps := by
    intro x held
    rw [slot?, ledger_modifyLedger]
    split
    · exact keeps _ x held
    · exact held
  loaded := by
    intro before s chunk held
    rw [slot?, ledger_modifyLedger] at held
    split at held
    · exact (loaded _ chunk held).elim (before s chunk) id
    · exact before s chunk held

theorem pin_gains (bound : session < w.ledgers.size) (v : Guest.Value) :
    Gains w (w.pin session v).1 session 1 :=
  occupy_gains bound v (fun l => l.held_addHandle _) (fun _ _ => Ledger.held?_addHandle _)
    fun _ _ held => .inl held

theorem keepCompiled_gains (bound : session < w.ledgers.size) {chunk : Nat}
    (known : chunk < w.chunks.size) (p : Guest.Prototype) :
    Gains w (w.keepCompiled session chunk p).1 session 1 := by
  let loaded := w.modifyMachine session fun m =>
    { m with store := (m.store.loadPrototype p (.table m.store.globals)).1 }
  have untouched : Untouched w loaded := ⟨load_holdings session p, rfl⟩
  have gains : Gains loaded (w.keepCompiled session chunk p).1 session 1 := by
    refine occupy_gains (w := loaded) bound _ (fun l => l.held_addCompiled chunk _)
      (fun _ _ => Ledger.held?_addCompiled chunk _) fun l other held => ?_
    by_cases same : other = chunk
    · exact .inr (same ▸ known)
    · rw [l.compiledSlot?_addCompiled_other _ same] at held
      exact .inl held
  rw [← Nat.zero_add 1]
  exact (untouched.gains session).trans gains

theorem receive_gains (bound : session < w.ledgers.size) (v : Guest.Value) :
    Gains w (w.receive session v).1 session (if v.isObject then 1 else 0) := by
  cases v with
  | nil | bool | int | float | string => exact .refl w session
  | table | closure | builtin | host | userdata | light | thread => exact pin_gains bound _

theorem receiveAll_gains (bound : session < w.ledgers.size) (values : List Guest.Value) :
    Gains w (w.receiveAll session values).1 session (values.countP Guest.Value.isObject) := by
  have all : ∀ (w : World σ) (received : List Datum), session < w.ledgers.size →
      Gains w (values.foldl (fun p v =>
        ((p.1.receive session v).1, (p.1.receive session v).2 :: p.2)) (w, received)).1 session
          (values.countP Guest.Value.isObject) := by
    induction values with
    | nil => exact fun w _ _ => .refl w session
    | cons v rest ih =>
        intro w received bound
        have first := receive_gains bound v
        have others := ih (w.receive session v).1 ((w.receive session v).2 :: received)
          (Nat.lt_of_lt_of_le bound first.sizes)
        rw [List.foldl_cons, List.countP_cons, Nat.add_comm]
        exact first.trans others
  exact all w [] bound

/-- A session holds one slot less. -/
def Loses (w w' : World σ) (session : Nat) : Prop :=
  ∀ s, w'.held s + (if s = session then 1 else 0) = w.held s

/-- No chunk is twice in an account, and the slots of a session that is open have an object in them if they
are held, and only then. -/
structure Balanced (w : World σ) : Prop where
  nodup : ∀ session, (w.ledger session).Nodup
  used : ∀ session, (w.ledger session).closed = false → (w.slots session).used = w.held session

theorem Balanced.giveBack_loses (balanced : w.Balanced) {x : Holder} {slot : Nat}
    (taken : w.slot? x = some slot) : Loses w (w.giveBack x) x.session := by
  have bound := session_lt taken
  have loses (f : Ledger → Ledger) (fewer : (f (w.ledger x.session)).held + 1 = w.held x.session) :
      Loses w ((w.vacate x.session slot).modifyLedger x.session f) x.session := by
    intro s
    have vacated (s : Nat) : (w.vacate x.session slot).held s = w.held s := by
      rw [held, ledger_vacate, held]
    rw [held_modifyLedger f (by rwa [ledgers_vacate]), ledger_vacate, vacated]
    split
    · next same =>
        subst same
        exact fewer
    · rfl
  cases x with
  | handle h =>
      have taken : (w.ledger h.session).slot? h.index = some slot := taken
      simp only [giveBack, releaseHandle, taken]
      exact loses _ (Ledger.held_releaseHandle taken)
  | chunk session chunk =>
      have taken : (w.ledger session).compiledSlot? chunk = some slot := taken
      simp only [giveBack, releaseChunk, taken]
      exact loses _ (Ledger.held_removeCompiled (balanced.nodup session) taken)

/-! ### Accounts in balance -/

theorem Balanced.congr (balanced : w.Balanced) (same : w'.holdings = w.holdings)
    (closed : ∀ s, (w'.ledger s).closed = false → (w.ledger s).closed = false) : w'.Balanced where
  nodup := by
    intro s
    have nodup := balanced.nodup s
    rw [Ledger.Nodup, compiled_eq] at nodup ⊢
    rwa [same]
  used := by
    intro s opened
    rw [slots_congr same, held_congr same]
    exact balanced.used s (closed s opened)

/-- An object takes a slot, and the session makes a note of it. -/
theorem Balanced.occupy {made : Made} (balanced : w.Balanced) (sound : w.Sound made) {x : Holder}
    {v : Guest.Value} {f : Ledger → Ledger} (bound : x.session < w.ledgers.size)
    (takes : Takes w ((w.occupy x.session v).1.modifyLedger x.session f) x v)
    (more : ∀ l, (f l).held = l.held + 1) (closed : ∀ l, (f l).closed = l.closed)
    (nodup : (f (w.ledger x.session)).Nodup) :
    ((w.occupy x.session v).1.modifyLedger x.session f).Balanced := by
  have ledger (s : Nat) : ((w.occupy x.session v).1.modifyLedger x.session f).ledger s =
      if x.session = s ∧ s < w.ledgers.size then f (w.ledger s) else w.ledger s :=
    ledger_modifyLedger _ _ _ _
  constructor
  · intro s
    rw [ledger]
    split
    · next same => exact same.1 ▸ nodup
    · exact balanced.nodup s
  · intro s opened
    have before : (w.slots s).used = w.held s := by
      refine balanced.used s ?_
      rw [ledger] at opened
      split at opened
      · rwa [closed] at opened
      · exact opened
    rw [occupy_held bound v more]
    by_cases same : s = x.session
    · rw [if_pos same, same, takes.slots, (sound.free _).used_pin, ← same, before]
    · rw [if_neg same, takes.elsewhere s same, before, Nat.add_zero]

theorem Balanced.pins {made : Made} (balanced : w.Balanced) (sound : w.Sound made) (session : Nat)
    (v : Guest.Value) : (w.pin session v).1.Balanced := by
  rcases Nat.lt_or_ge session w.ledgers.size with bound | missing
  · exact balanced.occupy sound (x := .handle (w.pin session v).2) bound (pin_takes sound.sizes bound v)
      (fun l => l.held_addHandle _) (fun _ => rfl) (balanced.nodup session)
  · rwa [pin_missing sound.sizes missing]

theorem Balanced.compiles {made : Made} (balanced : w.Balanced) (sound : w.Sound made)
    {session chunk : Nat} (new : (w.ledger session).compiledSlot? chunk = none) (p : Guest.Prototype) :
    (w.keepCompiled session chunk p).1.Balanced := by
  rcases Nat.lt_or_ge session w.ledgers.size with bound | missing
  · have same := load_holdings (w := w) session p
    have takes := (keepCompiled_takes chunk p sound.sizes bound).congr same.symm
    exact (balanced.congr same fun _ h => h).occupy (sound.same same) (x := .chunk session chunk) bound
      takes (fun l => l.held_addCompiled chunk _) (fun _ => rfl) ((balanced.nodup session).addCompiled new _)
  · rwa [keepCompiled_missing sound.sizes missing]

/-- A slot is emptied, and the session makes a note of it. -/
theorem Balanced.vacate {made : Made} (balanced : w.Balanced) (sound : w.Sound made) {x : Holder}
    {slot : Nat} (taken : w.slot? x = some slot) {f : Ledger → Ledger}
    (fewer : (f (w.ledger x.session)).held + 1 = w.held x.session) (closed : ∀ l, (f l).closed = l.closed)
    (nodup : (f (w.ledger x.session)).Nodup) :
    ((w.vacate x.session slot).modifyLedger x.session f).Balanced := by
  have bound := session_lt taken
  have ledger (s : Nat) : ((w.vacate x.session slot).modifyLedger x.session f).ledger s =
      if x.session = s ∧ s < w.ledgers.size then f (w.ledger s) else w.ledger s := by
    rw [ledger_modifyLedger, ledgers_vacate, ledger_vacate]
  constructor
  · intro s
    rw [ledger]
    split
    · next same => exact same.1 ▸ nodup
    · exact balanced.nodup s
  · intro s opened
    have opened : (w.ledger s).closed = false := by
      rw [ledger] at opened
      split at opened
      · rwa [closed] at opened
      · exact opened
    have before := balanced.used s opened
    rw [slots_modifyLedger, held, ledger]
    by_cases same : x.session = s
    · subst same
      have emptied : (w.vacate x.session slot).slots x.session = (w.slots x.session).unpin slot := by
        rw [World.vacate, if_neg (by simp [opened]), slots_modifyMachine, if_pos ⟨rfl, sound.sizes ▸ bound⟩]
        rfl
      have used := Guest.Slots.used_unpin (sound.kept x slot taken)
      rw [if_pos ⟨rfl, bound⟩, emptied]
      omega
    · rw [if_neg fun h => same h.1, slots_vacate_other slot (Ne.symm same)]
      exact before

theorem Balanced.givesBack {made : Made} (balanced : w.Balanced) (sound : w.Sound made) (x : Holder) :
    (w.giveBack x).Balanced := by
  cases taken : w.slot? x with
  | none => rwa [giveBack_unheld taken]
  | some slot =>
      cases x with
      | handle h =>
          have here : (w.ledger h.session).slot? h.index = some slot := taken
          simp only [giveBack, releaseHandle, here]
          exact balanced.vacate sound taken (Ledger.held_releaseHandle here) (fun _ => rfl)
            (balanced.nodup h.session)
      | chunk session chunk =>
          have here : (w.ledger session).compiledSlot? chunk = some slot := taken
          simp only [giveBack, releaseChunk, here]
          exact balanced.vacate sound taken (Ledger.held_removeCompiled (balanced.nodup session) here)
            (fun _ => rfl) ((balanced.nodup session).removeCompiled chunk)

theorem openSession_held (options : Options σ) (s : Nat) : (w.openSession options).1.held s = w.held s := by
  simp only [held, Ledger.held, handles_eq, compiled_eq, openSession_accounts]

theorem Balanced.opens {made : Made} (balanced : w.Balanced) (sound : w.Sound made)
    (options : Options σ) : (w.openSession options).1.Balanced := by
  constructor
  · intro s
    have nodup := balanced.nodup s
    rw [Ledger.Nodup, compiled_eq] at nodup ⊢
    rwa [openSession_accounts]
  · intro s opened
    rw [openSession_slots, openSession_held]
    rcases Nat.lt_or_ge s w.ledgers.size with old | missing
    · refine balanced.used s ?_
      rwa [ledger, openSession, Array.getD_eq_getD_getElem?, Array.getElem?_push_lt old,
        ← Array.getElem?_eq_getElem old, ← Array.getD_eq_getD_getElem?] at opened
    · rw [slots_missing (sound.sizes ▸ missing), held, ledger_missing missing]
      rfl

theorem Changes.tracked (changes : w.Changes w') (tracked : w.Tracked) : w'.Tracked := by
  obtain ⟨made, sound⟩ := tracked
  obtain ⟨made', evolves⟩ := changes.continues made
  exact ⟨made', evolves.sound sound⟩

/-- Whatever becomes of a world, its accounts stay in balance. -/
theorem Changes.balanced (changes : w.Changes w') (tracked : w.Tracked) (balanced : w.Balanced) :
    w'.Balanced := by
  induction changes with
  | refl => exact balanced
  | trans first _ ih ih' => exact ih' (first.tracked tracked) (ih tracked balanced)
  | memory | identity | chunk | raises => exact balanced.congr rfl fun _ h => h
  | machine session f same => exact balanced.congr (modifyMachine_holdings _ session f same) fun _ h => h
  | exposes session f same => exact balanced.congr (exposing_holdings _ session f same) fun _ h => h
  | marks session f same closed =>
      refine balanced.congr (modifyLedger_holdings _ session f same) fun s opened => ?_
      rw [ledger_modifyLedger] at opened
      split at opened
      · exact Bool.eq_false_iff.mpr fun shut => nomatch opened.symm.trans (closed _ shut)
      · exact opened
  | opens options => exact tracked.elim fun _ sound => balanced.opens sound options
  | pins session v => exact tracked.elim fun _ sound => balanced.pins sound session v
  | compiles session chunk new => exact tracked.elim fun _ sound => balanced.compiles sound new _
  | releases h => exact tracked.elim fun _ sound => balanced.givesBack sound (.handle h)
  | releasesChunk session chunk =>
      exact tracked.elim fun _ sound => balanced.givesBack sound (.chunk session chunk)

end World

namespace Config
variable {σ : Type} {c : Config σ}

/-- Whatever host code does, accounts are in balance. -/
theorem Reachable.balanced (reachable : Reachable c) : c.world.Tracked ∧ c.world.Balanced := by
  obtain ⟨client, directory, memory, run⟩ := reachable
  induction run with
  | refl =>
      refine ⟨⟨_, start_sound_slots client directory memory fun _ => .nil⟩, fun s => ?_, fun s opened => ?_⟩
      · rw [World.ledger_missing (Nat.zero_le s)]
        exact .nil
      · exact nomatch (World.ledger_missing (w := (start { directory, memory } client).world)
          (Nat.zero_le s)) ▸ opened
  | @tail c d _ next ih =>
      obtain ⟨tracked, balanced⟩ := ih
      cases next.1 with
      | step => exact ⟨c.step_changes.tracked tracked, c.step_changes.balanced tracked balanced⟩
      | surroundings directory memory =>
          obtain ⟨made, sound⟩ := tracked
          exact ⟨⟨made, sound.same rfl⟩, balanced.congr rfl fun _ h => h⟩

/-- In a session that is open, the slots in use are those with an object in them. -/
theorem Reachable.used (reachable : Reachable c) {session : Nat}
    (opened : (c.world.ledger session).closed = false) :
    (c.world.slots session).used = (c.world.ledger session).slotsInUse := by
  rw [Ledger.slotsInUse_eq, if_neg (by simp [opened])]
  exact reachable.balanced.2.used session opened

end Config

end LuaHost
