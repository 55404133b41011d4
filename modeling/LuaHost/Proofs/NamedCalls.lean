import LuaHost.Proofs.Custody
import LuaHost.Proofs.Frames
import LuaHost.Proofs.Lookups
/-!
Calls by name. The path is looked up as a reference, and what it leads to is called through the reference, which is
given back at the end; so a call by name comes to what a lookup and a call come to that are made one after the other.
It is refused without a call if the path leads to what is no function and has nothing in its metatable for calls. A
guest is more exact about it, and calls only what has a function there.
-/

namespace LuaHost

namespace Guest

/-- The rule of guests: what can be called is a function, or its metatable has a function for calls. -/
def Store.CanCall (store : Store) (v : Value) : Prop :=
  v.isFunction = true ∨ (store.metafield v Event.call).isFunction = true

theorem Value.not_nil_of_function {v : Value} (function : v.isFunction = true) : ¬ v.isNil = true := by
  cases v with
  | nil => exact nomatch function
  | _ => exact nofun

/-- What can be called is entered through a function, and nothing else is entered. -/
theorem Machine.enter_rule (m : Machine) (func : Nat) (wanted : Option Nat) (depth : Nat)
    (yieldable isTailCall : Bool) :
    (m.store.CanCall (m.peek func) → ∃ (m' : Machine) (f : Value), f.isFunction = true ∧
      m.enter func wanted depth yieldable isTailCall = m'.enterFunction func f wanted depth yieldable isTailCall) ∧
    (¬ m.store.CanCall (m.peek func) → ∃ name,
      m.enter func wanted depth yieldable isTailCall = .error (m.typeErrorMessage (m.peek func) name "call")) := by
  rw [enter]
  dsimp only
  by_cases function : (m.peek func).isFunction = true
  · rw [if_pos function]
    exact ⟨fun _ => ⟨m, _, function, rfl⟩, fun cannot => absurd (.inl function) cannot⟩
  · rw [if_neg function]
    by_cases handler : (m.store.metafield (m.peek func) Event.call).isFunction = true
    · rw [if_pos handler]
      exact ⟨fun _ => ⟨_, _, handler, rfl⟩, fun cannot => absurd (.inr handler) cannot⟩
    · rw [if_neg handler]
      exact ⟨fun can => absurd can (not_or.mpr ⟨function, handler⟩), fun _ => ⟨_, rfl⟩⟩

end Guest

variable {σ : Type}

namespace World
variable {w₀ : World σ} {made : Made} {session : Nat}

/-- What a host value is for a guest: the value that is handed over for it, and a value of this type. -/
structure Presents (w : World σ) (session : Nat) (d : Datum) (v : Guest.Value) : Prop where
  given : w.give? session d = some v
  type : d.guestType = v.typeName
  function : v.isFunction = true ↔ ∃ h, d = .composite .function h

/-- What has been received presents a value again. -/
theorem Sound.receive_presents (sound : w₀.Sound made) (inside : session < w₀.ledgers.size) (v : Guest.Value) :
    ∃ u, (w₀.receive session v).1.Presents session (w₀.receive session v).2 u := by
  have pinned (u : Guest.Value) (kind : CompositeKind) :
      (w₀.pin session u).1.give? session (.composite kind (w₀.pin session u).2) = some u := by
    have takes := pin_takes sound.sizes inside u
    have denoted : (w₀.pin session u).1.denoted? (.handle (w₀.pin session u).2) = some u := by
      rw [(sound.takes takes).denoted takes.slot, Function.update_self]
    exact give_of_denoted kind denoted
  cases v with
  | nil | bool | float => exact ⟨_, rfl, rfl, by simp [World.receive, Guest.Value.isFunction]⟩
  | string => exact ⟨_, rfl, rfl, by simp [World.receive, Guest.ofText, Guest.Value.isFunction]⟩
  | int n =>
      have given : w₀.give? session (.int n.toInt) = some (.int n) := by
        rw [World.give?, if_pos (Guest.fitsInt32_toInt n), Int32.ofInt_toInt]
      exact ⟨_, given, rfl, by simp [World.receive, Guest.Value.isFunction]⟩
  | closure | builtin | host => exact ⟨_, pinned _ _, rfl, fun _ => ⟨_, rfl⟩, fun _ => rfl⟩
  | table | userdata | light | thread =>
      exact ⟨_, pinned _ _, rfl, by simp [World.receive, World.pinAs, Guest.Value.isFunction]⟩

/-- A handle that is given back leaves all of the machines alone but their slots. -/
theorem release_machine (w : World σ) (item : Item) (session : Nat) :
    ∃ slots, (w.release item).machine session = { w.machine session with slots } := by
  rw [release]
  split
  · next h _ =>
      rw [releaseHandle]
      split
      · exact ⟨_, rfl⟩
      · next slot _ =>
          rw [vacate]
          split
          · exact ⟨_, rfl⟩
          · have same := w.machine_modifyMachine h.session session fun m => { m with slots := m.slots.unpin slot }
            split at same
            · exact ⟨_, same⟩
            · exact ⟨_, same⟩
  · exact ⟨_, rfl⟩

end World

namespace Config
variable {c d : Config σ} {s : State} {keys : List String} {arguments : List Item} {T : List (Pending σ)}

/-- How a call by name comes to an outcome `o` in a world `w'`. -/
inductive CallsByName (c : Config σ) (s : State) (keys : List String) (arguments : List Item) (o : Outcome)
    (w' : World σ) : Prop
  /-- The path leads to nothing. -/
  | unresolved (gives : c.world.Gives c.stack (.refGet s keys) o w')
      (nothing : ∀ state ref, o ≠ .ok state (.reference ref))
  /-- The path leads to what no guest could call, and nothing happens. -/
  | refused {w w'' : World σ} {v : Guest.Value} {ref : Reference}
      (leads : c.world.Gives c.stack (.refGet s keys) (.ok none (.reference ref)) w)
      (target : w.Presents s.session ref.target v)
      (cannot : ¬ (w.machine s.session).store.CanCall v)
      (nothing : ((w.machine s.session).store.metafield v Guest.Event.call).isNil = true)
      (fails : w.fail s.session (.undefinedPath keys (some v.typeName)) = (w'', o))
      (released : w' = w''.release (.reference ref))
      (untouched : ∃ slots, w'.machine s.session = { w.machine s.session with slots })
      (standing : w'.standing = w.standing)
  /-- The path leads to a function, or to what has something in its metatable for calls, and this is called. -/
  | called {w w'' : World σ} {v : Guest.Value} {ref : Reference}
      (leads : c.world.Gives c.stack (.refGet s keys) (.ok none (.reference ref)) w)
      (target : w.Presents s.session ref.target v)
      (callable : v.isFunction = true ∨ ((w.machine s.session).store.metafield v Guest.Event.call).isNil = false)
      (gives : w.Gives c.stack (.call s ref arguments) o w'')
      (released : w' = w''.release (.reference ref))

/-- A guest that works for an operation is left in one step, when its call is over. -/
theorem guest_last {purpose : Purpose} {o : Outcome} {w' : World σ} (reachable : Reachable c)
    (kept : (.guest s purpose :: T) <:+ c.stack) (leads : LeadsAbove T c ⟨w', .outcome o, T⟩) :
    ∃ d, Reachable d ∧ d.control = .guest s.session ∧ d.stack = .guest s purpose :: T ∧
      d.step = ⟨w', .outcome o, T⟩ := by
  obtain ⟨n, ended, above⟩ := leads
  induction n generalizing c with
  | zero =>
      obtain rfl : c = _ := ended
      exact absurd kept (not_cons_suffix T)
  | succ n ih =>
      have next : Reachable c.step := reachable.run (run_steps c 1)
      have above' : ∀ m ≤ n, T <:+ (step^[m] c.step).stack := fun m le => above (m + 1) (Nat.succ_le_succ le)
      rcases c.step_move.guest_over kept with still | ⟨S, o', left, -⟩
      · exact ih next still ended above'
      · have control : c.step.control = .outcome o' := congrArg Posture.control left
        have stack : c.step.stack = T := congrArg Posture.stack left
        have rest : LeadsAbove c.step.stack c.step ⟨w', .outcome o, T⟩ := stack.symm ▸ ⟨n, ended, above'⟩
        have last := rest.outcome_last next.proper control
        have waits : c.stack = .guest s purpose :: T := by
          have shorter : c.stack.tail <:+ T := stack ▸ c.step_move.tail_suffix
          refine (kept.eq_of_length_le ?_).symm
          have := shorter.length_le
          simp only [List.length_tail, List.length_cons] at *
          omega
        refine ⟨c, reachable, ?_, waits, last⟩
        have fits : c.control.Fits (.guest s purpose :: T) := waits ▸ reachable.proper.control
        obtain ⟨w, control, S⟩ := c
        cases fits with
        | guest => rfl
        | client _ _ h | outcome _ _ h => exact h.elim
        | perform _ _ h | lacksFile _ _ _ _ h => exact nomatch h
        | lacksGuest path =>
            simp only [step] at stack
            have same : S = T := by
              split at stack <;> exact stack
            exact absurd (waits.symm.trans same) (List.cons_ne_self _ _)

/-- A lookup fails at once, or the guest is asked. -/
theorem lookingUp_cases (c : Config σ) (s : State) (keys : List String) (asReference : Bool) :
    (∃ o, (c.lookingUp s keys asReference).control = .outcome o ∧
      (c.lookingUp s keys asReference).stack = c.stack ∧ ¬ o.IsOk) ∨
    (c.lookingUp s keys asReference).stack = .guest s (.lookup keys asReference) :: c.stack := by
  rw [lookingUp, requiring]
  split
  · exact .inl ⟨_, rfl, rfl, id⟩
  · split
    · exact .inl ⟨_, rfl, rfl, World.fail_not_ok _ _ _⟩
    · exact .inr rfl

theorem returned_found {w w' : World σ} {session : Nat} {values : List Guest.Value} {given : Option State}
    {ref : Reference} (ends : returned session (.lookup keys true) values w = (w', .ok given (.reference ref))) :
    given = none ∧ ∃ v, w.receive session v = (w', ref.target) := by
  cases values with
  | nil => exact absurd (.of_eq (congrArg Prod.snd ends)) (World.fail_not_ok _ _ _)
  | cons v values =>
      simp only [returned] at ends
      split at ends
      · exact absurd (.of_eq (congrArg Prod.snd ends)) (World.fail_not_ok _ _ _)
      · cases ends
        exact ⟨rfl, v, rfl⟩

/-- What a lookup leads to is a value of the guest. -/
theorem found {w w' : World σ} {given : Option State} {ref : Reference}
    (reachable : Reachable ⟨w, .perform (.refGet s keys), T⟩)
    (gives : w.Gives T (.refGet s keys) (.ok given (.reference ref)) w') :
    given = none ∧ ∃ v, w'.Presents s.session ref.target v := by
  let asked : Config σ := ⟨w, .perform (.refGet s keys), T⟩
  have rest : LeadsAbove asked.stack (asked.lookingUp s keys true)
      ⟨w', .outcome (.ok given (.reference ref)), T⟩ := by
    refine LeadsAbove.next gives fun same => ?_
    cases congrArg Config.control same
  have next : Reachable (asked.lookingUp s keys true) := reachable.run (run_steps asked 1)
  rcases asked.lookingUp_cases s keys true with ⟨o, control, stack, failed⟩ | stack
  · rw [← stack] at rest
    have last := rest.outcome_last next.proper control
    exact absurd (.of_eq (Control.outcome.inj (control.symm.trans (congrArg Config.control last)))) failed
  · have kept : (.guest s (.lookup keys true) :: T) <:+ (asked.lookingUp s keys true).stack :=
      stack ▸ List.suffix_refl _
    obtain ⟨⟨w₁, control, S⟩, reached, rfl, rfl, last⟩ := guest_last next kept rest
    obtain ⟨signal, -, left⟩ := guest_left rfl rfl (congrArg Config.control last)
    rw [last] at left
    let ran := w₁.modifyMachine s.session (·.run portion)
    have same : (ran.restore s).holdings = w₁.holdings :=
      (World.restore_holdings _ _).trans (w₁.modifyMachine_holdings _ _ fun m => m.run_slots portion)
    cases signal with
    | failed status error traceback =>
        exact absurd (.of_eq (Control.outcome.inj (congrArg Config.control left)).symm) (World.failCall_not_ok _ _ _)
    | finished values =>
        have world := congrArg Config.world left
        have outcome := Control.outcome.inj (congrArg Config.control left)
        obtain ⟨rfl, v, received⟩ := returned_found (w := ran.restore s) (Prod.ext world outcome).symm
        have inside : s.session < (ran.restore s).ledgers.size := by
          have issued := reached.sound.revived (.guest s (.lookup keys true)) List.mem_cons_self s rfl
          rw [(World.sizes_congr same).1]
          simpa [posture, World.standing] using issued.1
        obtain ⟨made, recorded⟩ := reached.recorded
        have presents := (recorded.sound.same same).receive_presents inside v
        rw [received] at presents
        exact ⟨rfl, presents⟩
    | hostCall | log | readFile => cases congrArg Config.control left

/-- What a path leads to is called if it is a function, or has something in its metatable for calls. -/
theorem resolved_presented {w : World σ} {v : Guest.Value} {ref : Reference} {given : Option State}
    (target : w.Presents s.session ref.target v) (control : Control σ) (arguments : List Item) :
    resolved ⟨w, control, T⟩ s keys arguments (.ok given (.reference ref)) =
      if v.isFunction || !((w.machine s.session).store.metafield v Guest.Event.call).isNil then
        ⟨w, .perform (.call s ref arguments), .called ref :: T⟩
      else
        ⟨(w.fail s.session (.undefinedPath keys (some v.typeName))).1.release (.reference ref),
          .outcome (w.fail s.session (.undefinedPath keys (some v.typeName))).2, T⟩ := by
  unfold resolved
  dsimp only
  split
  · next h is =>
      rw [target.function.mpr ⟨h, is⟩, Bool.true_or, if_pos rfl, if_pos rfl]
  · next other =>
      have not : v.isFunction = false := by
        rw [← Bool.not_eq_true, target.function]
        rintro ⟨h, is⟩
        exact other h is
      rw [World.hasCallMetamethod, target.given, target.type, not, Bool.false_or]
      rfl

theorem resolved_other {o : Outcome} (nothing : ∀ state ref, o ≠ .ok state (.reference ref)) :
    c.resolved s keys arguments o = { c with control := .outcome o } := by
  rw [resolved.eq_def]
  split
  · exact absurd rfl (nothing _ _)
  · rfl

section
variable {w w' : World σ} {k : Outcome → Client σ} {R : List (Pending σ)} {o o₁ : Outcome}

/-- A call by name ends in one of three ways when the lookup is over. -/
theorem callsByName_of_resolved {w₁ : World σ} (stacked : Stacked (.perform k :: R))
    (reachable : Reachable ⟨w, .perform (.refGet s keys), .resolved s keys arguments :: .perform k :: R⟩)
    (leads : w.Gives (.perform k :: R) (.refGet s keys) o₁ w₁)
    (rest : LeadsAbove (.perform k :: R) (resolved ⟨w₁, .outcome o₁, .perform k :: R⟩ s keys arguments o₁)
      ⟨w', .outcome o, .perform k :: R⟩) :
    CallsByName ⟨w, .perform (.callByName s keys arguments), .perform k :: R⟩ s keys arguments o w' := by
  by_cases somewhere : ∃ given ref, o₁ = .ok given (.reference ref)
  · obtain ⟨given, ref, rfl⟩ := somewhere
    obtain ⟨rfl, v, target⟩ :=
      found reachable ((gives_part stacked (.resolved _ _ _ _) (.resolved _ _ _ _ _)).mpr leads)
    rw [resolved_presented target] at rest
    split at rest
    · next callable =>
        obtain ⟨o₂, w₂, called, rest⟩ := (part_leads stacked (.called _ _ _ _) (.called _ _ _) rfl).mp rest
        obtain ⟨released, rfl⟩ := (outcome_leads stacked).mp rest
        exact .called leads target (by simpa using callable) called released
    · next refused =>
        obtain ⟨not, nothing⟩ : v.isFunction = false ∧
            ((w₁.machine s.session).store.metafield v Guest.Event.call).isNil = true := by
          simpa using refused
        obtain ⟨released, rfl⟩ := (outcome_leads stacked).mp rest
        refine .refused leads target ?_ nothing rfl released ?_ ?_
        · rintro (function | handler)
          · exact nomatch not.symm.trans function
          · exact Guest.Value.not_nil_of_function handler nothing
        · obtain ⟨slots, same⟩ := (w₁.fail s.session _).1.release_machine (.reference ref) s.session
          exact ⟨slots, by rw [released, same, World.machine, World.fail_vms]; rfl⟩
        · simp [released]
  · have nothing : ∀ state ref, o₁ ≠ .ok state (.reference ref) := fun state ref same => somewhere ⟨state, ref, same⟩
    rw [resolved_other nothing] at rest
    obtain ⟨rfl, rfl⟩ := (outcome_leads stacked).mp rest
    exact .unresolved leads nothing

theorem resolved_of_callsByName (stacked : Stacked (.perform k :: R))
    (calls : CallsByName ⟨w, .perform (.callByName s keys arguments), .perform k :: R⟩ s keys arguments o w') :
    ∃ o₁ w₁, w.Gives (.perform k :: R) (.refGet s keys) o₁ w₁ ∧
      LeadsAbove (.perform k :: R) (resolved ⟨w₁, .outcome o₁, .perform k :: R⟩ s keys arguments o₁)
        ⟨w', .outcome o, .perform k :: R⟩ := by
  cases calls with
  | unresolved leads nothing =>
      refine ⟨o, w', leads, ?_⟩
      rw [resolved_other nothing]
      exact .refl (List.suffix_refl _)
  | @refused w₁ _ v ref leads target cannot nothing fails released =>
      refine ⟨_, w₁, leads, ?_⟩
      have not : v.isFunction = false := (Bool.not_eq_true _).mp fun function => cannot (.inl function)
      rw [resolved_presented target, if_neg (by simp [not, nothing]), fails]
      exact released ▸ .refl (List.suffix_refl _)
  | @called w₁ _ v ref leads target callable gives released =>
      refine ⟨_, w₁, leads, ?_⟩
      rw [resolved_presented target, if_pos (by simpa using callable),
        part_leads stacked (.called _ _ _ _) (.called _ _ _) rfl]
      exact ⟨o, _, gives, released ▸ .refl (List.suffix_refl _)⟩

end

/-- What a call by name comes to, and in which world, is what the lookup of its path comes to if there is nothing to
call, and otherwise what a call of what the path leads to comes to; the reference to it is given back at the end.
What is no function and has nothing in its metatable for calls is never called; but what has something there that
is no function is called all the same, and the guest has to refuse it. -/
theorem callByName_agrees (reachable : Reachable c) (control : c.control = .perform (.callByName s keys arguments))
    (o : Outcome) (w' : World σ) :
    c.world.Gives c.stack (.callByName s keys arguments) o w' ↔ CallsByName c s keys arguments o w' := by
  obtain ⟨w, _, T⟩ := c
  obtain rfl : _ = _ := control
  have proper := reachable.proper
  obtain ⟨k, R, rfl⟩ : ∃ k R, T = .perform k :: R := by
    cases proper.control with
    | perform _ _ fits => exact Operation.Begins.performed (.callByName s keys arguments) fits
  have stacked : Stacked (.perform k :: R) := proper.stacked
  have begins : w.Gives (.perform k :: R) (.callByName s keys arguments) o w' ↔
      LeadsAbove (.perform k :: R) ⟨w, .perform (.refGet s keys), .resolved s keys arguments :: .perform k :: R⟩
        ⟨w', .outcome o, .perform k :: R⟩ :=
    ⟨fun gives => gives.next nofun, fun leads => .head (List.suffix_refl _) leads⟩
  rw [begins, part_leads stacked (.resolved _ _ _ _) (.resolved _ _ _ _ _) rfl]
  constructor
  · rintro ⟨o₁, w₁, leads, rest⟩
    exact callsByName_of_resolved stacked (reachable.run (run_steps _ 1)) leads rest
  · exact resolved_of_callsByName stacked

/-- A name is called in a session that has none. -/
def callingMissing : Config Unit :=
  step^[4] (start { directory := default, memory := () } (.perform
    (.init { libraries := .only [], callbacks := { onLog := fun _ _ memory => (memory, none) } }) fun
      | .ok (some s) _ => Client.inTurn [.callByName s ["a"] []]
      | _ => .throw (.value .undefined)))

/-- A call by a name that is missing fails as looking the name up does. -/
theorem callingMissing_unresolved : ∃ w : World Unit,
    callingMissing.world.Gives callingMissing.stack (.callByName ⟨0, 0⟩ ["a"] [])
      (w.fail 0 (.undefinedPath ["a"] none)).2 (w.fail 0 (.undefinedPath ["a"] none)).1 := by
  have lookUp : callingMissing.world.MayLookUp ⟨0, 0⟩ ["a"] :=
    ⟨grafting_mayAssign.tracked, rfl, fun _ => ⟨by decide, by decide, by decide⟩, ⟨_, rfl, rfl⟩, trivial⟩
  have missing : (callingMissing.world.machine 0).store.answer ["a"] = .refused (.undefinedPath ["a"] none) := by
    refine Guest.Store.answer_eq (List.cons_ne_nil _ _) (v := .nil) ?_
    exact congrArg (fun v => (some v).getD .nil) grafting_missing
  obtain ⟨r, ends, leads⟩ := lookUp.answers true []
  rw [missing] at ends
  cases ends with
  | refused w =>
      obtain ⟨n, led⟩ := leads
      have proper : (⟨callingMissing.world.standing, .perform (.refGet ⟨0, 0⟩ ["a"]), callingMissing.stack⟩ :
          Posture Unit).Proper := ⟨.perform _ _ (.perform _ _ _), .cons (.perform _ _ trivial) .nil⟩
      have looked := (World.gives_iff proper).mpr ⟨n, led, fun _ _ => List.nil_suffix⟩
      have failed := World.fail_not_ok w 0 (.undefinedPath ["a"] none)
      exact ⟨w, (callByName_agrees ⟨_, default, (), run_steps _ _⟩ rfl _ _).mpr
        (.unresolved looked fun state ref same => failed (.of_eq same))⟩

end Config

end LuaHost
