import LuaHost.Proofs.Slots
import Mathlib.Logic.Function.Basic
/-!
What becomes of the slots of a session while handles and compiled chunks come and go. A record says for
each holder which guest object it was made for; it is written once, when the holder gets its slot. What
the host does to the slots is nothing but taking the next one for a new holder and giving back the one
of an old holder, so that a world that is sound stays so.
-/

namespace LuaHost

/-- The guest object that each holder was made for. -/
abbrev Made := Holder → Guest.Value

namespace World
variable {σ : Type}

/-- Two holders of a session never share a slot, and each slot that is held has the object in it that
its holder was made for. -/
structure Sound (w : World σ) (made : Made) : Prop where
  sizes : w.ledgers.size = w.vms.size
  free : ∀ session, (w.slots session).WF
  kept : ∀ x slot, w.slot? x = some slot → (w.slots x.session).get? slot = some (made x)
  apart : ∀ x y slot, x.session = y.session → w.slot? x = some slot → w.slot? y = some slot → x = y

/-- A new holder takes the next slot for its object. -/
structure Takes (w w' : World σ) (x : Holder) (v : Guest.Value) : Prop where
  sizes : w'.ledgers.size = w.ledgers.size ∧ w'.vms.size = w.vms.size
  slot : w'.slot? x = some (w.slots x.session).next
  others : ∀ y, y ≠ x → w'.slot? y = w.slot? y
  slots : w'.slots x.session = (w.slots x.session).pin v
  elsewhere : ∀ session, session ≠ x.session → w'.slots session = w.slots session

/-- A holder gives its slot back; a session that is closed leaves it as it is. -/
structure GivesBack (w w' : World σ) (x : Holder) (slot : Nat) : Prop where
  sizes : w'.ledgers.size = w.ledgers.size ∧ w'.vms.size = w.vms.size
  held : w.slot? x = some slot
  gone : w'.slot? x = none
  others : ∀ y, y ≠ x → w'.slot? y = w.slot? y
  slots : w'.slots x.session = w.slots x.session ∨ w'.slots x.session = (w.slots x.session).unpin slot
  elsewhere : ∀ session, session ≠ x.session → w'.slots session = w.slots session

variable {w w' : World σ} {made : Made} {x : Holder} {v : Guest.Value} {slot : Nat}

theorem Sound.congr (sound : w.Sound made) (sizes : w'.ledgers.size = w'.vms.size)
    (held : ∀ x, w'.slot? x = w.slot? x) (slots : ∀ session, w'.slots session = w.slots session) :
    w'.Sound made where
  sizes := sizes
  free := by
    intro session
    rw [slots]
    exact sound.free session
  kept := by
    intro x slot here
    rw [held] at here
    rw [slots]
    exact sound.kept x slot here
  apart := by
    intro x y slot session left right
    rw [held] at left right
    exact sound.apart x y slot session left right

theorem Sound.same (sound : w.Sound made) (same : w'.holdings = w.holdings) : w'.Sound made := by
  obtain ⟨ledgers, vms⟩ := sizes_congr same
  refine sound.congr ?_ (slot?_congr same) (slots_congr same)
  rw [ledgers, vms, sound.sizes]

/-- The slot that is taken next belongs to nobody. -/
theorem Sound.next_free (sound : w.Sound made) {y : Holder} (held : w.slot? y = some slot) :
    slot ≠ (w.slots y.session).next := by
  rintro rfl
  exact nomatch (sound.kept y _ held).symm.trans (sound.free y.session).get?_next

theorem Sound.takes (sound : w.Sound made) (takes : Takes w w' x v) :
    w'.Sound (Function.update made x v) where
  sizes := by rw [takes.sizes.1, takes.sizes.2, sound.sizes]
  free := by
    intro session
    by_cases same : session = x.session
    · rw [same, takes.slots]
      exact (sound.free _).pin v
    · rw [takes.elsewhere session same]
      exact sound.free session
  kept := by
    intro y slot held
    by_cases same : y = x
    · subst same
      rw [takes.slot, Option.some.injEq] at held
      rw [takes.slots, ← held, Function.update_self]
      exact (sound.free _).get?_pin_next v
    · rw [takes.others y same] at held
      rw [Function.update_of_ne same, ← sound.kept y slot held]
      by_cases session : y.session = x.session
      · rw [session, takes.slots]
        exact Guest.Slots.get?_pin_other v (session ▸ sound.next_free held)
      · rw [takes.elsewhere _ session]
  apart := by
    -- the slot of the new holder is the next one, which nobody else has
    have fresh : ∀ y slot, y.session = x.session → y ≠ x → w'.slot? x = some slot →
        w'.slot? y ≠ some slot := by
      intro y slot session unlike new held
      rw [takes.slot, Option.some.injEq] at new
      rw [takes.others y unlike] at held
      exact sound.next_free held (session ▸ new.symm)
    intro y z slot session left right
    by_cases hy : y = x
    · by_cases hz : z = x
      · rw [hy, hz]
      · exact absurd right (fresh z slot (session ▸ congrArg _ hy) hz (hy ▸ left))
    · by_cases hz : z = x
      · exact absurd left (fresh y slot (session.trans (congrArg _ hz)) hy (hz ▸ right))
      · rw [takes.others y hy] at left
        rw [takes.others z hz] at right
        exact sound.apart y z slot session left right

/-- Nobody else has the slot that is given back. -/
theorem Sound.unlike (sound : w.Sound made) {y : Holder} {other : Nat}
    (held : w.slot? x = some slot) (held' : w.slot? y = some other) (session : y.session = x.session)
    (unlike : y ≠ x) : other ≠ slot := by
  rintro rfl
  exact unlike (sound.apart y x other session held' held)

/-- What the other holders stand for is not touched. -/
theorem Sound.others_kept (sound : w.Sound made) (back : GivesBack w w' x slot) {y : Holder}
    {other : Nat} (unlike : y ≠ x) (held : w.slot? y = some other) :
    (w'.slots y.session).get? other = some (made y) := by
  have kept := sound.kept y other held
  by_cases session : y.session = x.session
  · rw [session] at kept ⊢
    rcases back.slots with slots | slots
    · rw [slots]
      exact kept
    · rw [slots, Guest.Slots.get?_unpin_other (sound.unlike back.held held session unlike)]
      exact kept
  · rw [back.elsewhere _ session]
    exact kept

theorem Sound.givesBack (sound : w.Sound made) (back : GivesBack w w' x slot) : w'.Sound made where
  sizes := by rw [back.sizes.1, back.sizes.2, sound.sizes]
  free := by
    intro session
    by_cases same : session = x.session
    · subst same
      rcases back.slots with slots | slots
      · exact slots ▸ sound.free _
      · exact slots ▸ (sound.free _).unpin (sound.kept x slot back.held)
    · rw [back.elsewhere session same]
      exact sound.free session
  kept := by
    intro y other held
    have unlike : y ≠ x := fun same => nomatch (same ▸ held).symm.trans back.gone
    exact sound.others_kept back unlike (back.others y unlike ▸ held)
  apart := by
    intro y z other session left right
    have left' : y ≠ x := fun same => nomatch (same ▸ left).symm.trans back.gone
    have right' : z ≠ x := fun same => nomatch (same ▸ right).symm.trans back.gone
    exact sound.apart y z other session (back.others y left' ▸ left) (back.others z right' ▸ right)

/-- What is recorded for somebody who holds nothing does not matter. -/
theorem Sound.unheld (sound : w.Sound made) (unheld : w.slot? x = none) (v : Guest.Value) :
    w.Sound (Function.update made x v) where
  sizes := sound.sizes
  free := sound.free
  kept := by
    intro y slot held
    have unlike : y ≠ x := fun same => nomatch (same ▸ held).symm.trans unheld
    rw [Function.update_of_ne unlike]
    exact sound.kept y slot held
  apart := sound.apart

/-! ### The operations -/

theorem ledger_missing {session : Nat} (missing : w.ledgers.size ≤ session) :
    w.ledger session = { closed := true } := by
  simp [ledger, Array.getD, Nat.not_lt.mpr missing]

theorem slots_missing {session : Nat} (missing : w.vms.size ≤ session) : w.slots session = {} := by
  simp only [slots, machine, Array.getElem?_eq_none missing]
  rfl

theorem slot?_missing (missing : w.ledgers.size ≤ x.session) : w.slot? x = none := by
  rw [slot?, ledger_missing missing]
  cases x <;> rfl

theorem session_lt (held : w.slot? x = some slot) : x.session < w.ledgers.size := by
  rcases Nat.lt_or_ge x.session w.ledgers.size with bound | missing
  · exact bound
  · exact absurd (held.symm.trans (slot?_missing missing)) (Option.some_ne_none slot)

/-- The next slot is taken for an object, and the session makes a note of it. -/
theorem occupy_takes (f : Ledger → Ledger) (sizes : w.ledgers.size = w.vms.size)
    (bound : x.session < w.ledgers.size)
    (slot : (f (w.ledger x.session)).held? x = some (w.slots x.session).next)
    (others : ∀ y, y.session = x.session → y ≠ x →
      (f (w.ledger x.session)).held? y = (w.ledger x.session).held? y) :
    Takes w ((w.occupy x.session v).1.modifyLedger x.session f) x v where
  sizes := by simp [occupy, modifyMachine, modifyLedger]
  slot := by
    rw [slot?, ledger_modifyLedger, occupy, ledger_modifyMachine, if_pos ⟨rfl, bound⟩]
    exact slot
  others := by
    intro y unlike
    rw [slot?, slot?, ledger_modifyLedger, occupy, ledger_modifyMachine]
    split
    · next same => rw [← same.1, others y same.1.symm unlike]
    · rfl
  slots := by
    rw [slots_modifyLedger, occupy, slots_modifyMachine, if_pos ⟨rfl, sizes ▸ bound⟩]
    rfl
  elsewhere := by
    intro session unlike
    rw [slots_modifyLedger, occupy, slots_modifyMachine, if_neg fun same => unlike same.1.symm]

@[simp] theorem ledgers_vacate (session slot : Nat) : (w.vacate session slot).ledgers = w.ledgers := by
  unfold vacate
  split <;> rfl

@[simp] theorem ledger_vacate (session slot other : Nat) :
    (w.vacate session slot).ledger other = w.ledger other := by
  rw [ledger, ledgers_vacate, ledger]

theorem slots_vacate_other (slot : Nat) {session other : Nat} (unlike : other ≠ session) :
    (w.vacate session slot).slots other = w.slots other := by
  unfold vacate
  split
  · rfl
  · rw [slots_modifyMachine, if_neg fun same => unlike same.1.symm]

theorem slots_vacate (session slot : Nat) :
    (w.vacate session slot).slots session = w.slots session ∨
      (w.vacate session slot).slots session = (w.slots session).unpin slot := by
  unfold vacate
  split
  · exact .inl rfl
  · rw [slots_modifyMachine]
    split
    · exact .inr rfl
    · exact .inl rfl

/-- A slot is emptied, and the session makes a note of it. -/
theorem vacate_givesBack (f : Ledger → Ledger) (held : w.slot? x = some slot)
    (gone : (f (w.ledger x.session)).held? x = none)
    (others : ∀ y, y.session = x.session → y ≠ x →
      (f (w.ledger x.session)).held? y = (w.ledger x.session).held? y) :
    GivesBack w ((w.vacate x.session slot).modifyLedger x.session f) x slot where
  sizes := by
    refine ⟨by simp [modifyLedger], ?_⟩
    unfold vacate
    split <;> simp [modifyMachine, modifyLedger]
  held := held
  gone := by
    rw [slot?, ledger_modifyLedger, ledgers_vacate, ledger_vacate, if_pos ⟨rfl, session_lt held⟩]
    exact gone
  others := by
    intro y unlike
    rw [slot?, slot?, ledger_modifyLedger, ledger_vacate]
    split
    · next same => rw [← same.1, others y same.1.symm unlike]
    · rfl
  slots := slots_vacate x.session slot
  elsewhere := fun _ unlike => slots_vacate_other slot unlike

theorem pin_takes {session : Nat} (sizes : w.ledgers.size = w.vms.size)
    (bound : session < w.ledgers.size) (v : Guest.Value) :
    Takes w (w.pin session v).1 (.handle (w.pin session v).2) v := by
  refine occupy_takes (x := .handle (w.pin session v).2) _ sizes bound ?_ ?_
  · exact Ledger.slot?_addHandle_next _ _
  · intro y same unlike
    cases y with
    | handle h =>
        refine Ledger.slot?_addHandle_other _ _ fun index => unlike ?_
        obtain ⟨session', index'⟩ := h
        obtain rfl : session' = session := same
        exact congrArg _ (congrArg _ index)
    | chunk session' chunk => rfl

theorem Takes.congr {w₀ : World σ} (takes : Takes w w' x v) (same : w.holdings = w₀.holdings) :
    Takes w₀ w' x v where
  sizes := by
    obtain ⟨ledgers, vms⟩ := sizes_congr same
    exact ⟨takes.sizes.1.trans ledgers, takes.sizes.2.trans vms⟩
  slot := by rw [takes.slot, slots_congr same]
  others := by
    intro y unlike
    rw [takes.others y unlike, slot?_congr same]
  slots := by rw [takes.slots, slots_congr same]
  elsewhere := by
    intro session unlike
    rw [takes.elsewhere session unlike, slots_congr same]

/-- A prototype becomes a function without anybody taking a slot. -/
theorem load_holdings (session : Nat) (p : Guest.Prototype) :
    (w.modifyMachine session fun m =>
      { m with store := (m.store.loadPrototype p (.table m.store.globals)).1 }).holdings =
        w.holdings :=
  w.modifyMachine_holdings session _ fun _ => rfl

theorem keepCompiled_slot (session chunk : Nat) (p : Guest.Prototype) :
    (w.keepCompiled session chunk p).2 = (w.slots session).next :=
  congrArg Guest.Slots.next (slots_congr (load_holdings session p) session)

theorem keepCompiled_takes {session : Nat} (chunk : Nat) (p : Guest.Prototype)
    (sizes : w.ledgers.size = w.vms.size) (bound : session < w.ledgers.size) :
    Takes w (w.keepCompiled session chunk p).1 (.chunk session chunk)
      (.closure (w.machine session).store.closures.size) := by
  refine Takes.congr ?_ (load_holdings session p)
  refine occupy_takes (x := .chunk session chunk) _ ?_ ?_ ?_ ?_
  · simpa [modifyMachine] using sizes
  · exact bound
  · exact Ledger.compiledSlot?_addCompiled _ _ _
  · intro y same unlike
    cases y with
    | handle h => rfl
    | chunk session' chunk' =>
        obtain rfl : session' = session := same
        exact Ledger.compiledSlot?_addCompiled_other _ _ fun h => unlike (congrArg _ h)

theorem releaseHandle_givesBack {h : Handle} (held : w.slot? (.handle h) = some slot) :
    GivesBack w (w.releaseHandle h) (.handle h) slot := by
  have unfolds : w.releaseHandle h =
      (w.vacate h.session slot).modifyLedger h.session (·.releaseHandle h.index) := by
    have held : (w.ledger h.session).slot? h.index = some slot := held
    simp only [releaseHandle, held]
  rw [unfolds]
  refine vacate_givesBack (x := .handle h) _ held ?_ ?_
  · exact Ledger.slot?_releaseHandle _ _
  · intro y same unlike
    cases y with
    | handle h' =>
        refine Ledger.slot?_releaseHandle_other _ fun index => unlike ?_
        obtain ⟨session', index'⟩ := h'
        obtain rfl : session' = h.session := same
        obtain rfl : index' = h.index := index
        rfl
    | chunk session' chunk => rfl

theorem releaseChunk_givesBack {session chunk : Nat}
    (held : w.slot? (.chunk session chunk) = some slot) :
    GivesBack w (w.releaseChunk session chunk) (.chunk session chunk) slot := by
  have unfolds : w.releaseChunk session chunk =
      (w.vacate session slot).modifyLedger session (·.removeCompiled chunk) := by
    have held : (w.ledger session).compiledSlot? chunk = some slot := held
    simp only [releaseChunk, held]
  rw [unfolds]
  refine vacate_givesBack (x := .chunk session chunk) _ held ?_ ?_
  · exact Ledger.compiledSlot?_removeCompiled _ _
  · intro y same unlike
    cases y with
    | handle h => rfl
    | chunk session' chunk' =>
        obtain rfl : session' = session := same
        exact Ledger.compiledSlot?_removeCompiled_other _ fun h => unlike (congrArg _ h)

theorem modifyLedger_missing {session : Nat} (missing : w.ledgers.size ≤ session)
    (f : Ledger → Ledger) : w.modifyLedger session f = w := by
  rw [modifyLedger, modify_missing missing]

theorem modifyMachine_missing {session : Nat} (missing : w.vms.size ≤ session)
    (f : Guest.Machine → Guest.Machine) : w.modifyMachine session f = w := by
  rw [modifyMachine, modify_missing missing]

/-! ### Records -/

/-- How a world and the record of what holders were made for go on together. The record changes for a
handle when it is made, and for a chunk when it is compiled. -/
inductive Evolves : World σ → Made → World σ → Made → Prop
  | same {w w' : World σ} {made : Made} (holdings : w'.holdings = w.holdings) :
      Evolves w made w' made
  | opens {w : World σ} {made : Made} (options : Options σ) :
      Evolves w made (w.openSession options).1 made
  | pins {w : World σ} {made : Made} (session : Nat) (v : Guest.Value) :
      Evolves w made (w.pin session v).1 (Function.update made (.handle (w.pin session v).2) v)
  | compiles {w : World σ} {made : Made} {p : Guest.Prototype} (session chunk : Nat)
      (new : (w.ledger session).compiledSlot? chunk = none)
      (compiled : (w.chunk chunk).compile (w.machine session).mainDepth = .ok p) :
      Evolves w made (w.keepCompiled session chunk p).1
        (Function.update made (.chunk session chunk)
          (.closure (w.machine session).store.closures.size))
  | releases {w : World σ} {made : Made} (h : Handle) : Evolves w made (w.releaseHandle h) made
  | releasesChunk {w : World σ} {made : Made} (session chunk : Nat) :
      Evolves w made (w.releaseChunk session chunk) made
  | trans {w w' w'' : World σ} {made made' made'' : Made} (first : Evolves w made w' made')
      (second : Evolves w' made' w'' made'') : Evolves w made w'' made''

/-- A session that is opened has neither holders nor objects. -/
theorem openSession_accounts (options : Options σ) (session : Nat) :
    (w.openSession options).1.holdings.accounts.getD session (#[], []) =
      w.holdings.accounts.getD session (#[], []) := by
  have pushed : (w.openSession options).1.holdings.accounts = w.holdings.accounts.push (#[], []) := by
    simp [openSession, holdings]
  rw [pushed, getD_push]

theorem openSession_slots (options : Options σ) (session : Nat) :
    (w.openSession options).1.slots session = w.slots session := by
  have pushed : (w.openSession options).1.holdings.slots = w.holdings.slots.push {} := by
    simp [openSession, holdings, Guest.Machine.start]
  rw [slots_eq, slots_eq, pushed, getD_push]

theorem openSession_slot? (options : Options σ) (x : Holder) :
    (w.openSession options).1.slot? x = w.slot? x := by
  cases x with
  | handle h =>
      simp only [slot?, Ledger.held?, Ledger.slot?, handles_eq, openSession_accounts]
  | chunk session chunk =>
      simp only [slot?, Ledger.held?, Ledger.compiledSlot?, compiled_eq, openSession_accounts]

theorem Sound.opens (sound : w.Sound made) (options : Options σ) :
    (w.openSession options).1.Sound made :=
  sound.congr (by simp [openSession, sound.sizes]) (openSession_slot? options)
    (openSession_slots options)

/-- A handle that has been made, whether or not it has been given back since. -/
def Knows (w : World σ) (h : Handle) : Prop := h.index < (w.ledger h.session).nextHandle

theorem Knows.congr {h : Handle} (known : w.Knows h) (same : w'.holdings = w.holdings) : w'.Knows h := by
  rwa [Knows, Ledger.nextHandle, handles_eq, same, ← handles_eq]

theorem Knows.modifyLedger {h : Handle} (knows : w.Knows h) (session : Nat) {f : Ledger → Ledger}
    (grows : ∀ l : Ledger, l.nextHandle ≤ (f l).nextHandle) : (w.modifyLedger session f).Knows h := by
  rw [Knows, ledger_modifyLedger]
  split
  · exact Nat.lt_of_lt_of_le knows (grows _)
  · exact knows

theorem Knows.vacate {h : Handle} (knows : w.Knows h) (session slot : Nat) :
    (w.vacate session slot).Knows h := by
  rwa [Knows, ledger_vacate]

theorem Knows.releaseHandle {h : Handle} (knows : w.Knows h) (h' : Handle) :
    (w.releaseHandle h').Knows h := by
  unfold World.releaseHandle
  split
  · exact knows
  · exact (knows.vacate _ _).modifyLedger _ fun l => by
      simp [Ledger.releaseHandle, Ledger.nextHandle]

theorem Knows.releaseChunk {h : Handle} (knows : w.Knows h) (session chunk : Nat) :
    (w.releaseChunk session chunk).Knows h := by
  unfold World.releaseChunk
  split
  · exact knows
  · exact (knows.vacate _ _).modifyLedger _ fun l => Nat.le_refl _

theorem pin_missing {session : Nat} (sizes : w.ledgers.size = w.vms.size)
    (missing : w.ledgers.size ≤ session) (v : Guest.Value) : (w.pin session v).1 = w := by
  simp only [pin, occupy, modifyMachine_missing (sizes ▸ missing), modifyLedger_missing missing]

theorem keepCompiled_missing {session : Nat} (sizes : w.ledgers.size = w.vms.size)
    (missing : w.ledgers.size ≤ session) (chunk : Nat) (p : Guest.Prototype) :
    (w.keepCompiled session chunk p).1 = w := by
  have missing' : w.vms.size ≤ session := sizes ▸ missing
  simp only [keepCompiled, occupy, modifyMachine_missing missing', modifyLedger_missing missing]

/-- All holders but the new one keep what they have. -/
theorem pin_others (sizes : w.ledgers.size = w.vms.size) (session : Nat) (v : Guest.Value)
    (unlike : x ≠ .handle (w.pin session v).2) : (w.pin session v).1.slot? x = w.slot? x := by
  rcases Nat.lt_or_ge session w.ledgers.size with bound | missing
  · exact (pin_takes sizes bound v).others x unlike
  · rw [pin_missing sizes missing]

theorem keepCompiled_others (sizes : w.ledgers.size = w.vms.size) {session chunk : Nat}
    (p : Guest.Prototype) (unlike : x ≠ .chunk session chunk) :
    (w.keepCompiled session chunk p).1.slot? x = w.slot? x := by
  rcases Nat.lt_or_ge session w.ledgers.size with bound | missing
  · exact (keepCompiled_takes chunk p sizes bound).others x unlike
  · rw [keepCompiled_missing sizes missing]

theorem Sound.pins (sound : w.Sound made) (session : Nat) (v : Guest.Value) :
    (w.pin session v).1.Sound (Function.update made (.handle (w.pin session v).2) v) := by
  rcases Nat.lt_or_ge session w.ledgers.size with bound | missing
  · exact sound.takes (pin_takes sound.sizes bound v)
  · rw [pin_missing sound.sizes missing]
    exact sound.unheld (x := .handle (w.pin session v).2) (slot?_missing missing) v

theorem Sound.compiles (sound : w.Sound made) (session chunk : Nat) (p : Guest.Prototype) :
    (w.keepCompiled session chunk p).1.Sound
      (Function.update made (.chunk session chunk)
        (.closure (w.machine session).store.closures.size)) := by
  rcases Nat.lt_or_ge session w.ledgers.size with bound | missing
  · exact sound.takes (keepCompiled_takes chunk p sound.sizes bound)
  · rw [keepCompiled_missing sound.sizes missing]
    exact sound.unheld (x := .chunk session chunk) (slot?_missing missing) _

/-- A handle that has been given back, or was never made, is given back to no effect. -/
theorem releaseHandle_unheld {h : Handle} (unheld : w.slot? (.handle h) = none) :
    w.releaseHandle h = w := by
  have unheld : (w.ledger h.session).slot? h.index = none := unheld
  simp only [releaseHandle, unheld]

theorem releaseChunk_unheld {session chunk : Nat} (unheld : w.slot? (.chunk session chunk) = none) :
    w.releaseChunk session chunk = w := by
  have unheld : (w.ledger session).compiledSlot? chunk = none := unheld
  simp only [releaseChunk, unheld]

theorem Sound.releases (sound : w.Sound made) (h : Handle) : (w.releaseHandle h).Sound made := by
  cases held : w.slot? (.handle h) with
  | none => rwa [releaseHandle_unheld held]
  | some slot => exact sound.givesBack (releaseHandle_givesBack held)

theorem Sound.releasesChunk (sound : w.Sound made) (session chunk : Nat) :
    (w.releaseChunk session chunk).Sound made := by
  cases held : w.slot? (.chunk session chunk) with
  | none => rwa [releaseChunk_unheld held]
  | some slot => exact sound.givesBack (releaseChunk_givesBack held)

theorem Evolves.sound {made' : Made} (evolves : Evolves w made w' made') (sound : w.Sound made) :
    w'.Sound made' := by
  induction evolves with
  | same holdings => exact sound.same holdings
  | opens options => exact sound.opens options
  | pins session v => exact sound.pins session v
  | compiles session chunk new compiled => exact sound.compiles session chunk _
  | releases h => exact sound.releases h
  | releasesChunk session chunk => exact sound.releasesChunk session chunk
  | trans first second ih ih' => exact ih' (ih sound)

/-- What is recorded for a handle that has been made stays, and so does its slot until it is given
back. -/
structure Keeps (w : World σ) (made : Made) (w' : World σ) (made' : Made) (h : Handle) : Prop where
  recorded : made' (.handle h) = made (.handle h)
  knows : w'.Knows h
  slot : w'.slot? (.handle h) = w.slot? (.handle h) ∨ w'.slot? (.handle h) = none

theorem Keeps.trans {w'' : World σ} {made' made'' : Made} {h : Handle}
    (first : Keeps w made w' made' h) (second : Keeps w' made' w'' made'' h) :
    Keeps w made w'' made'' h where
  recorded := second.recorded.trans first.recorded
  knows := second.knows
  slot := by
    rcases second.slot with same | gone
    · rw [same]
      exact first.slot
    · exact .inr gone

/-- A handle that has been made stands for its object for good. -/
theorem Evolves.handle {made' : Made} {h : Handle} (evolves : Evolves w made w' made')
    (sound : w.Sound made) (knows : w.Knows h) : Keeps w made w' made' h := by
  induction evolves with
  | same holdings => exact ⟨rfl, knows.congr holdings, .inl (slot?_congr holdings _)⟩
  | opens options =>
      refine ⟨rfl, ?_, .inl (openSession_slot? options _)⟩
      rwa [Knows, Ledger.nextHandle, handles_eq, openSession_accounts, ← handles_eq]
  | @pins w made session v =>
      -- The new handle's index is the next one, and that of a handle that has been made is below it.
      have unlike : Holder.handle h ≠ .handle (w.pin session v).2 := by
        intro same
        obtain rfl : h = (w.pin session v).2 := by simpa using same
        exact Nat.lt_irrefl _ knows
      refine ⟨Function.update_of_ne unlike _ _, ?_, ?_⟩
      · refine Knows.modifyLedger knows session fun l => ?_
        simp [Ledger.addHandle, Ledger.nextHandle]
      · exact .inl (pin_others sound.sizes session v unlike)
  | compiles session chunk new compiled =>
      have unlike : Holder.handle h ≠ .chunk session chunk := Holder.noConfusion
      refine ⟨Function.update_of_ne unlike _ _, ?_, ?_⟩
      · exact Knows.modifyLedger knows session fun l => Nat.le_refl _
      · exact .inl (keepCompiled_others sound.sizes _ unlike)
  | @releases w made h' =>
      refine ⟨rfl, knows.releaseHandle h', ?_⟩
      cases held : w.slot? (.handle h') with
      | none => exact .inl (by rw [releaseHandle_unheld held])
      | some slot =>
          by_cases same : Holder.handle h = .handle h'
          · exact .inr (same ▸ (releaseHandle_givesBack held).gone)
          · exact .inl ((releaseHandle_givesBack held).others _ same)
  | @releasesChunk w made session chunk =>
      refine ⟨rfl, knows.releaseChunk session chunk, .inl ?_⟩
      cases held : w.slot? (.chunk session chunk) with
      | none => rw [releaseChunk_unheld held]
      | some slot => exact (releaseChunk_givesBack held).others _ Holder.noConfusion
  | trans first second ih ih' =>
      have before := ih sound knows
      exact before.trans (ih' (first.sound sound) before.knows)

end World

end LuaHost
