import LuaHost.Proofs.Runs
/-!
How far an operation has come. An operation that is called with the head goes through few stages until it
ends; what is done for it meanwhile by the guest, by host functions and by encoders is of no account,
since the state is made the head again when they are done. The one operation that is made of two and
moves the head in between runs source text that it has compiled.
-/

namespace LuaHost

variable {σ : Type}

/-- What happens on the way of an operation and matters at its end. -/
structure Log where
  /-- Source text has been compiled, and its run has begun. -/
  began : Prop
  /-- The last encoder of a table has ended with a state of another session. -/
  strayed : Prop

def Log.none : Log := ⟨False, False⟩

namespace Operation

/-- How an operation called with the head `s` ends. It may leave another head although it fails, but only
where the run of compiled source text has begun and the host throws. -/
inductive Ends (log : Log) (op : Operation σ) (s : State) (S : Standing σ) : Outcome → Prop
  | failed (o) (h : ¬ o.IsOk) (head : S.head s.session = s)
      (heard : ∀ chunk, op = .runChunk s chunk → S.Quiet s.session → ¬ o.IsThrown) :
      Ends log op s S o
  | unsettled (t op') (h : log.began) (runs : op.Begins op' (.compiled s))
      (head : S.head s.session ≠ s) (loud : ¬ S.Quiet s.session) : Ends log op s S (.threw t)
  | told (r) (h : op.LooksUp) (head : S.head s.session = s)
      (reference : ∀ keys, op = .refGet s keys → ∃ ref, r = .reference ref) :
      Ends log op s S (.ok none r)
  | gave (t r) (h : ¬ op.LooksUp)
      (session : t.session = s.session ∨ log.strayed)
      (newer : t.session = s.session → s.generation < t.generation)
      (opened : op.Compiles s → (S.lineage s.session).closed = false) :
      Ends log op s S (.ok (some t) r)

/-- What is performed for an operation that is made of two, from which state, and what waits for it. -/
inductive Part (log : Log) : Operation σ → State → Pending σ → Operation σ → State → Prop
  | first {op op' f s} (subject : op.subject? = some s) (h : op.Begins op' f) :
      Part log op s f op' s
  | runs {op op'} (s t chunk) (h : op.Begins op' (.compiled s)) (begun : log.began)
      (session : t.session = s.session) (newer : s.generation < t.generation) :
      Part log op s (.ran s t chunk) (.runChunk t chunk) t
  | calls (s keys arguments target) :
      Part log (.callByName s keys arguments) s (.called target) (.call s target arguments) s

theorem Part.whole {log : Log} {op op' : Operation σ} {s t : State} {f : Pending σ}
    (part : Part log op s f op' t) (op'' : Operation σ) (g : Pending σ) :
    ¬ op'.Begins op'' g := by
  intro h
  cases part with
  | first _ begins => cases begins <;> exact nomatch h
  | runs | calls => exact nomatch h

theorem Part.not_table {log : Log} {op op' : Operation σ} {s t : State} {f : Pending σ}
    (part : Part log op s f op' t) (entries : Encoders σ) : op' ≠ .encodeTable t entries := by
  cases part with
  | first _ begins => cases begins <;> exact fun same => nomatch same
  | runs | calls => exact fun same => nomatch same

/-- What waits while the guest or an encoder works for an operation. -/
inductive Serves (op : Operation σ) (s : State) : Pending σ → Prop
  | guest (purpose) (h : op.Enters s purpose) : Serves op s (.guest s purpose)
  | key (entries table value) (h : op = .encodeTable s entries) (origin : table.origin = s) :
      Serves op s (.key table value)
  | value (entries table key) (h : op = .encodeTable s entries) (origin : table.origin = s) :
      Serves op s (.value table key)

theorem Serves.revived {op : Operation σ} {s : State} {f : Pending σ} (h : op.Serves s f) :
    f.revived? = some s := by
  cases h with
  | guest => rfl
  | key _ _ _ _ origin | value _ _ _ _ origin => exact congrArg some origin

end Operation

/-- How far an operation has come that was called with the head `s` and above `T`. -/
inductive Stage : Log → Operation σ → State → List (Pending σ) → Posture σ → Prop
  | asked {log op s T S} (subject : op.subject? = some s) (head : S.head s.session = s)
      (opened : ∀ chunk, op = .runChunk s chunk → (S.lineage s.session).closed = false) :
      Stage log op s T ⟨S, .perform op, T⟩
  | waits {log op s T S path} (subject : op.subject? = some s) (compiles : op.Compiles s)
      (head : S.head s.session = s) : Stage log op s T ⟨S, .lacking path (.perform op), T⟩
  | inside {log op s T f p} (serves : op.Serves s f) (kept : (f :: T) <:+ p.stack) :
      Stage log op s T p
  | part {log op s T f op' t p} (part : op.Part log s f op' t)
      (stage : Stage .none op' t (f :: T) p) : Stage log op s T p
  | ended {log op s T S o} (ends : op.Ends log s S o) : Stage log op s T ⟨S, .outcome o, T⟩
  | finished {log op s T S r} : Stage log op s T ⟨S, .finished r, T⟩

namespace Stage
variable {log : Log} {op op' : Operation σ} {s t : State} {T : List (Pending σ)}
  {p q : Posture σ} {f : Pending σ}

theorem suffix (h : Stage log op s T p) : T <:+ p.stack := by
  induction h with
  | asked | waits | ended | finished => exact List.suffix_refl _
  | inside serves kept => exact (List.suffix_cons _ _).trans kept
  | part part stage ih => exact (List.suffix_cons _ _).trans ih

/-- An operation whose outcome is there has ended. -/
theorem ends {S : Standing σ} {o : Outcome} (h : Stage log op s T ⟨S, .outcome o, T⟩) :
    op.Ends log s S o := by
  generalize hp : (⟨S, .outcome o, T⟩ : Posture σ) = p at h
  cases h with
  | ended ends =>
      cases hp
      exact ends
  | inside serves kept =>
      subst hp
      exact absurd kept (not_cons_suffix T)
  | part part stage =>
      subst hp
      exact absurd stage.suffix (not_cons_suffix T)
  | asked | waits | finished => exact nomatch hp

theorem mono {log' : Log} (begun : log.began → log'.began) (strays : log.strayed → log'.strayed)
    (h : Stage log op s T p) : Stage log' op s T p := by
  cases h with
  | asked subject head opened => exact .asked subject head opened
  | waits subject compiles head => exact .waits subject compiles head
  | inside serves kept => exact .inside serves kept
  | finished => exact .finished
  | part part stage =>
      refine .part ?_ stage
      cases part with
      | first subject h => exact .first subject h
      | runs _ _ chunk h began session newer => exact .runs _ _ chunk h (begun began) session newer
      | calls _ keys arguments target => exact .calls _ keys arguments target
  | ended ends =>
      refine .ended ?_
      cases ends with
      | failed _ h head heard => exact .failed _ h head heard
      | unsettled _ _ h runs head loud => exact .unsettled _ _ (begun h) runs head loud
      | told _ h head reference => exact .told _ h head reference
      | gave _ _ h session newer opened => exact .gave _ _ h (session.imp_right strays) newer opened

end Stage

namespace Move
variable {p q : Posture σ} {f : Pending σ} {T : List (Pending σ)}

/-- What is below the top of the stack stays there. -/
theorem stays_suffix (m : Move p q) (g : Pending σ) {R : List (Pending σ)} (stack : p.stack = g :: R)
    (kept : T <:+ R) : T <:+ q.stack := by
  have tail := m.tail_suffix
  rw [stack] at tail
  exact kept.trans tail

/-- Either something goes on waiting or it is on top and its wait is over. -/
theorem waiting_cases (m : Move p q) (kept : (f :: T) <:+ p.stack) :
    (f :: T) <:+ q.stack ∨ p.stack = f :: T := by
  obtain ⟨above, stack⟩ := kept
  cases above with
  | nil => exact .inr stack.symm
  | cons g above =>
      exact .inl (m.stays_suffix g stack.symm (List.suffix_append above (f :: T)))

end Move

namespace Stage
variable {log : Log} {op op' : Operation σ} {s t : State} {T : List (Pending σ)}
  {p q : Posture σ} {f : Pending σ}

/-- What is given at the end of an operation is newer than what the operation was called with. -/
theorem newer {S : Standing σ} (issued : S.Issued s) (fresh : ¬ S.Issued t) :
    t.session = s.session → s.generation < t.generation := by
  intro same
  rcases Nat.lt_or_ge s.generation t.generation with newer | older
  · exact newer
  · exact absurd ⟨same ▸ issued.1, same ▸ Nat.le_trans older issued.2⟩ fresh

theorem asked_move {S : Standing σ} (subject : op.subject? = some s)
    (head : S.head s.session = s)
    (opened : ∀ chunk, op = .runChunk s chunk → (S.lineage s.session).closed = false)
    (sound : S.Sound) (m : Move ⟨S, .perform op, T⟩ q) : Stage log op s T q := by
  cases m with
  | idle => exact .asked subject head opened
  | loadWaits => exact .waits subject (Option.some.inj subject) head
  | finishes => exact .finished
  | fails _ _ o _ failed stays heard =>
      refine .ended (.failed o failed head ?_)
      intro chunk runs
      exact heard s chunk runs ⟨opened chunk runs, head⟩
  | ends _ _ _ _ free => exact nomatch subject.symm.trans free
  | closes | opens => exact nomatch subject
  | succeeds _ _ s' r _ subject' accepted gives =>
      obtain rfl := Option.some.inj (subject.symm.trans subject')
      refine .ended (.gave _ r gives (.inl rfl) ?_ ?_)
      · exact newer (accepted.issued sound) (S.advance_fresh s.session)
      · intro _
        rw [S.advance_lineage]
        split <;> exact accepted.1
  | begins _ _ op' f _ h =>
      refine .part (.first subject h) (.asked (h.subject subject) head ?_)
      rintro chunk rfl
      exact nomatch h
  | enters _ _ s' purpose _ h =>
      obtain rfl := Option.some.inj (subject.symm.trans h.subject)
      exact .inside (.guest purpose h) (List.suffix_refl _)
  | builds _ s' entries k table value _ accepted origin =>
      obtain rfl := Option.some.inj subject
      exact .inside (.key entries table value rfl origin) (List.suffix_refl _)

/-- The guest, or an encoder, has done its work for an operation. -/
theorem inside_move (serves : op.Serves s f) (sound : p.Sound) (m : Move p q)
    (stack : p.stack = f :: T)
    (strays : ∀ entries last items table key, op = .encodeTable s entries →
      p.control = .client (.done last items) → p.stack = .value table key :: T →
      last.session ≠ s.session → log.strayed) : (f :: T) <:+ q.stack ∨ Stage log op s T q := by
  have revived := serves.revived
  have issued : p.standing.Issued s := sound.revived f (by simp [stack]) s revived
  have restored : (p.standing.restore s).head s.session = s := by
    simp [Standing.head, Standing.restore_lineage, issued.1, Lineage.restore]
  cases m with
  | performs | begins | enters | builds | calls =>
      exact .inl (stack ▸ List.suffix_cons _ _)
  | resumes | answers | settles | refusesTarget | runs | callsTarget =>
      cases stack
      cases serves
  | handsOn S o f' T' h =>
      cases stack
      cases h <;> cases serves
  | guestFails S session entry purpose o T' failed heard =>
      cases stack
      cases serves with
      | guest _ h =>
          right
          refine .ended (.failed o failed restored ?_)
          intro chunk _
          exact heard
  | guestTells S session entry keys asReference r T' reference =>
      cases stack
      cases serves with
      | guest _ h =>
          right
          refine .ended (.told r ?_ restored ?_)
          · cases h <;> trivial
          · rintro keys' rfl
            cases h
            exact reference rfl
  | guestReturns S session entry purpose r T' gives =>
      cases stack
      cases serves with
      | guest _ h =>
          right
          refine .ended (.gave _ r ?_ (.inl rfl) ?_ ?_)
          · cases h with
            | get | refGet => exact fun _ => gives
            | _ => exact id
          · exact newer (issued.restore s) (Standing.advance_fresh _)
          · cases h <;> exact False.elim
  | gotKey S k k' table value key T' =>
      cases stack
      cases serves with
      | key entries _ _ h origin =>
          exact .inr (.inside (.value entries _ _ h origin) (List.suffix_refl _))
  | gotValue S k k' table table' key value T' origin' =>
      cases stack
      cases serves with
      | value entries _ _ h origin =>
          exact .inr (.inside (.key entries _ _ h (origin'.trans origin)) (List.suffix_refl _))
  | built S last items table key r T' accepted =>
      cases stack
      cases serves with
      | value entries _ _ h origin =>
          right
          have kind : ¬ op.LooksUp ∧ ¬ op.Compiles s := h ▸ ⟨id, id⟩
          refine .ended (.gave _ r kind.1 ?_ (newer issued (S.advance_fresh _))
            fun compiles => absurd compiles kind.2)
          by_cases same : last.session = s.session
          · exact .inl same
          · exact .inr (strays entries last items table key h rfl rfl same)
  | abandonsKey =>
      cases stack
      cases serves with
      | key _ _ _ h origin =>
          subst h origin
          exact .inr (.ended (.failed _ id restored fun _ runs => by cases runs))
  | abandonsValue =>
      cases stack
      cases serves with
      | value _ _ _ h origin =>
          subst h origin
          exact .inr (.ended (.failed _ id restored fun _ runs => by cases runs))
  | _ => exact .inl (stack ▸ List.suffix_refl _)

/-- Only the end of a part makes what waits for it go on. -/
theorem part_ended (part : op.Part log s f op' t) (m : Move p q) (stack : p.stack = f :: T)
    (left : ¬ (f :: T) <:+ q.stack) : ∃ o, p.control = .outcome o := by
  have waits : ∀ R, q.stack = R → ¬ (f :: T) <:+ R := fun R same => same ▸ left
  cases m with
  | performs | begins | enters | builds | calls =>
      exact absurd (stack ▸ List.suffix_cons _ _) left
  | resumes S o k T' => exact ⟨o, rfl⟩
  | handsOn S o f' T' h => exact ⟨o, rfl⟩
  | settles | runs | callsTarget | refusesTarget => exact ⟨_, rfl⟩
  | answers | guestFails | guestTells | guestReturns | gotKey | gotValue | built | abandonsKey
  | abandonsValue =>
      cases stack
      cases part with
      | first _ h => exact nomatch h
  | _ => exact absurd (stack ▸ List.suffix_refl _) left

theorem part_over (stage : Stage .none op' t (f :: T) p) (part : op.Part log s f op' t)
    (m : Move p q) (left : ¬ (f :: T) <:+ q.stack) : ∃ S o, p = ⟨S, .outcome o, f :: T⟩ := by
  have stack := (m.waiting_cases stage.suffix).resolve_left left
  obtain ⟨o, control⟩ := part_ended part m stack left
  obtain ⟨S, control', stack'⟩ := p
  obtain rfl : control' = _ := control
  obtain rfl : stack' = _ := stack
  exact ⟨S, o, rfl⟩

/-- Source text has been compiled, and is run or is not. -/
theorem compiled_move {S : Standing σ} {o : Outcome} (begins : op.Begins op' (.compiled s))
    (ends : op'.Ends .none s S o) (compiles : op'.Compiles s) (whole : ¬ op.LooksUp)
    (sound : Posture.Sound ⟨S, .outcome o, .compiled s :: T⟩)
    (m : Move ⟨S, .outcome o, .compiled s :: T⟩ q) (left : ¬ (.compiled s :: T) <:+ q.stack)
    (begun : ∀ t chunk, (.ran s t chunk :: T) <:+ q.stack → log.began) : Stage log op s T q := by
  cases m with
  | idle | finishes => exact absurd (List.suffix_refl _) left
  | handsOn _ _ _ _ h =>
      refine .ended ?_
      cases ends with
      | failed _ failed head heard =>
          refine .failed o failed head ?_
          rintro chunk rfl
          exact nomatch begins
      | unsettled _ _ never => exact never.elim
      | told r h => cases op' <;> first | exact compiles.elim | exact h.elim
      | gave t r gives session newer opened =>
          refine .gave t r whole (.inl ?_) newer ?_
          · exact session.resolve_right id
          · intro compiles'
            cases begins <;> exact compiles'.elim
  | runs _ _ t chunk c =>
      cases ends with
      | failed _ failed => exact absurd trivial failed
      | gave _ _ gives session newer opened =>
          have session : t.session = s.session := session.resolve_right id
          refine .part (.runs s t chunk begins (begun t chunk (List.suffix_refl _)) session
            (newer session)) (.asked rfl (sound.gives t _ rfl).2 ?_)
          intro _ _
          rw [session]
          exact opened compiles

/-- The run of source text that has been compiled has ended. -/
theorem ran_move {S : Standing σ} {o : Outcome} {chunk : Nat} (begun : log.began)
    (session : t.session = s.session) (newer : s.generation < t.generation)
    (ends : (Operation.runChunk t chunk : Operation σ).Ends .none t S o)
    (runs : op.Begins op' (.compiled s))
    (sound : Posture.Sound ⟨S, .outcome o, .ran s t chunk :: T⟩)
    (m : Move ⟨S, .outcome o, .ran s t chunk :: T⟩ q)
    (left : ¬ (.ran s t chunk :: T) <:+ q.stack) : Stage log op s T q := by
  have gives : ¬ op.LooksUp := by cases runs <;> exact id
  have other : ∀ chunk, op ≠ .runChunk s chunk := by
    rintro chunk rfl
    exact nomatch runs
  cases m with
  | idle | finishes => exact absurd (List.suffix_refl _) left
  | settles _ f =>
      have issued : S.Issued s := sound.revived _ (List.mem_cons_self ..) s rfl
      refine .ended (.failed _ id ?_ fun chunk runs => absurd runs (other chunk))
      simp [Standing.head, S.restore_lineage, issued.1, Lineage.restore]
  | handsOn _ _ _ _ h =>
      cases h with
      | ran _ _ _ _ thrown =>
          refine .ended ?_
          cases ends with
          | failed _ failed head heard =>
              cases o with
              | ok => exact absurd trivial failed
              | err f => exact absurd rfl (thrown f)
              | threw x =>
                  refine .unsettled x op' begun runs ?_ ?_
                  · intro same
                    rw [← session, head] at same
                    exact Nat.lt_irrefl _ (same ▸ newer)
                  · intro quiet
                    exact heard chunk rfl (session ▸ quiet) trivial
          | unsettled _ _ never => exact never.elim
          | told _ h => exact h.elim
          | gave t' r _ session' newer' _ =>
              have session' : t'.session = t.session := session'.resolve_right id
              refine .gave t' r gives (.inl (session'.trans session)) ?_ ?_
              · intro _
                exact Nat.lt_trans newer (newer' session')
              · intro compiles
                cases runs <;> exact compiles.elim

/-- The target of a call by name has been looked up. -/
theorem resolved_move {S : Standing σ} {o : Outcome} {keys : List String} {arguments : List Item}
    (ends : (Operation.refGet s keys : Operation σ).Ends .none s S o)
    (m : Move ⟨S, .outcome o, .resolved s keys arguments :: T⟩ q)
    (left : ¬ (.resolved s keys arguments :: T) <:+ q.stack) :
    Stage log (.callByName s keys arguments) s T q := by
  cases m with
  | idle | finishes => exact absurd (List.suffix_refl _) left
  | handsOn _ _ _ _ h =>
      cases h with
      | resolved _ _ _ _ other =>
          cases ends with
          | failed _ failed head heard =>
              exact .ended (.failed o failed head fun _ runs => nomatch runs)
          | unsettled _ _ never => exact never.elim
          | told r h head reference =>
              obtain ⟨ref, rfl⟩ := reference keys rfl
              exact absurd rfl (other none ref)
          | gave _ _ gives => exact absurd trivial gives
  | callsTarget _ s' r =>
      cases ends with
      | failed _ failed => exact absurd trivial failed
      | told _ h head => exact .part (.calls s keys arguments _) (.asked rfl head fun _ runs => nomatch runs)
      | gave _ _ gives => exact absurd trivial gives
  | refusesTarget _ s' r _ _ _ o' _ failed' =>
      cases ends with
      | failed _ failed => exact absurd trivial failed
      | told _ h head => exact .ended (.failed o' failed' head fun _ runs => nomatch runs)
      | gave _ _ gives => exact absurd trivial gives

/-- The target of a call by name has been called. -/
theorem called_move {S : Standing σ} {o : Outcome} {keys : List String} {arguments : List Item}
    {target : Reference}
    (ends : (Operation.call s target arguments : Operation σ).Ends .none s S o)
    (m : Move ⟨S, .outcome o, .called target :: T⟩ q)
    (left : ¬ (.called target :: T) <:+ q.stack) :
    Stage log (.callByName s keys arguments) s T q := by
  cases m with
  | idle | finishes => exact absurd (List.suffix_refl _) left
  | handsOn =>
      refine .ended ?_
      cases ends with
      | failed _ failed head heard => exact .failed o failed head fun _ runs => nomatch runs
      | unsettled _ _ never => exact never.elim
      | told _ h => exact h.elim
      | gave t r gives session newer opened =>
          exact .gave t r id (.inl (session.resolve_right id)) newer False.elim

/-- An operation goes from stage to stage. -/
theorem move (stage : Stage log op s T p) (sound : p.Sound) (m : Move p q)
    (kept : T <:+ q.stack)
    (begun : ∀ t chunk op', op.Begins op' (.compiled s) → (.ran s t chunk :: T) <:+ q.stack →
      log.began)
    (strays : ∀ entries last items table key, op = .encodeTable s entries →
      p.control = .client (.done last items) → p.stack = .value table key :: T →
      last.session ≠ s.session → log.strayed) :
    Stage log op s T q := by
  induction stage with
  | asked subject head opened => exact asked_move subject head opened sound.standing m
  | waits subject compiles head =>
      cases m with
      | idle => exact .waits subject compiles head
      | proceeds =>
          refine .asked subject head ?_
          rintro chunk rfl
          exact compiles.elim
      | finishes => exact .finished
  | inside serves waiting =>
      rcases m.waiting_cases waiting with still | stack
      · exact .inside serves still
      · rcases inside_move serves sound m stack strays with still | stage
        · exact .inside serves still
        · exact stage
  | finished =>
      cases m <;> exact .finished
  | ended ends =>
      rcases m.outcome_kept kept with rfl | ⟨r, rfl⟩
      · exact .ended ends
      · exact .finished
  | @part log op s T f op' t p part stage ih =>
      by_cases still : (f :: T) <:+ q.stack
      -- A part is neither made of two nor a table, so that nothing is asked of its own log.
      · exact .part part (ih sound m still (fun _ _ op'' begins _ => part.whole op'' _ begins)
          fun entries _ _ _ _ same => absurd same (part.not_table entries))
      · obtain ⟨S, o, rfl⟩ := stage.part_over part m still
        cases part with
        | first subject begins =>
            cases begins with
            | run _ source name =>
                obtain rfl := Option.some.inj subject
                exact compiled_move (.run _ source name) stage.ends rfl id sound m still
                  fun t chunk => begun t chunk _ (.run _ source name)
            | runFile _ path =>
                obtain rfl := Option.some.inj subject
                exact compiled_move (.runFile _ path) stage.ends rfl id sound m still
                  fun t chunk => begun t chunk _ (.runFile _ path)
            | callByName _ keys arguments =>
                obtain rfl := Option.some.inj subject
                exact resolved_move stage.ends m still
        | runs _ _ chunk begins began session newer =>
            exact ran_move began session newer stage.ends begins sound m still
        | calls _ keys arguments target => exact called_move stage.ends m still

theorem same_frame {g : Pending σ} {R : List (Pending σ)} (left : (f :: T) <:+ R)
    (right : (g :: T) <:+ R) : f = g := by
  have equal := List.suffix_of_suffix_length_le left right (by simp)
  exact (List.cons.inj (equal.eq_of_length (by simp))).1

/-- Where source text that has been compiled is run, its run is what the operation has come to. -/
theorem ran_stage {chunk : Nat} (stage : Stage log op s T p)
    (above : (.ran s t chunk :: T) <:+ p.stack) :
    (∃ op', op.Begins op' (.compiled s)) ∧ t.session = s.session ∧ s.generation < t.generation ∧
      Stage .none (.runChunk t chunk) t (.ran s t chunk :: T) p := by
  cases stage with
  | asked | waits | ended | finished => exact absurd above (not_cons_suffix T)
  | inside serves kept =>
      obtain rfl := same_frame kept above
      exact nomatch serves
  | part part stage =>
      obtain rfl := same_frame stage.suffix above
      cases part with
      | first _ h => exact nomatch h
      | runs _ _ _ h _ session newer => exact ⟨⟨_, h⟩, session, newer, stage⟩

/-- Encoders are run for tables only. -/
theorem value_stage {table : TableInProgress σ} {key : Item} (stage : Stage log op s T p)
    (above : (.value table key :: T) <:+ p.stack) : ∃ entries, op = .encodeTable s entries := by
  cases stage with
  | asked | waits | ended | finished => exact absurd above (not_cons_suffix T)
  | inside serves kept =>
      obtain rfl := same_frame kept above
      cases serves with
      | value entries _ _ h => exact ⟨entries, h⟩
  | part part stage =>
      obtain rfl := same_frame stage.suffix above
      cases part with
      | first _ h => exact nomatch h

end Stage

end LuaHost
