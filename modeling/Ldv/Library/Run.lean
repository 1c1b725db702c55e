import Mathlib.Data.List.Basic

/-!
# Total correctness of stateful programs that may fail

`Returns program state post` says that `program`, started in `state`, does
not fail and that its result and final state satisfy `post`.  The rules
below take a program apart along its structure, so that a specification of a
procedure is proved from the specifications of the procedures it calls.
-/

namespace Effect

variable
  {σ ε α β : Type}
  {program : StateT σ (Except ε) α}
  {next : α → StateT σ (Except ε) β}
  {state : σ}
  {cond : Prop}
  {post post' : α → σ → Prop}
  {M : α → σ → Prop}

/-- The program returns, and its result and final state satisfy `post`. -/
def Returns (program : StateT σ (Except ε) α) (state : σ) (post : α → σ → Prop) :
    Prop :=
  ∃ result final, program.run state = .ok (result, final) ∧ post result final

theorem Returns.pure {result : α} (holds : post result state) :
    Returns (Pure.pure result : StateT σ (Except ε) α) state post :=
  ⟨result, state, rfl, holds⟩

theorem Returns.mono (returns : Returns program state post)
    (weaker : ∀ result final, post result final → post' result final) :
    Returns program state post' := by
  rcases returns with ⟨result, final, ran, holds⟩
  exact ⟨result, final, ran, weaker result final holds⟩

/-- A sequence runs exactly when its two parts do. -/
theorem run_bind_eq_ok {outcome : β × σ} :
    (program >>= next).run state = .ok outcome ↔
      ∃ result middle,
        program.run state = .ok (result, middle) ∧ (next result).run middle = .ok outcome := by
  rw [StateT.run_bind]
  cases ran : program.run state with
  | error failure => simp [Bind.bind, Except.bind]
  | ok first =>
    rcases first with ⟨result, middle⟩
    simp [Bind.bind, Except.bind]

theorem Returns.bind {post : β → σ → Prop} (first : Returns program state M)
    (second : ∀ result final, M result final → Returns (next result) final post) :
    Returns (program >>= next) state post := by
  rcases first with ⟨result, final, ran, holds⟩
  rcases second result final holds with ⟨result', final', ran', holds'⟩
  exact ⟨result', final', run_bind_eq_ok.2 ⟨result, final, ran, ran'⟩, holds'⟩

theorem Returns.get_bind {next : σ → StateT σ (Except ε) β} {post : β → σ → Prop}
    (rest : Returns (next state) state post) :
    Returns (MonadState.get >>= next) state post :=
  Returns.bind
    (M := fun result final => result = state ∧ final = state)
    ⟨state, state, rfl, rfl, rfl⟩
    (by rintro _ _ ⟨rfl, rfl⟩; exact rest)

theorem Returns.set_bind {next : PUnit → StateT σ (Except ε) β} {state state' : σ}
    {post : β → σ → Prop} (rest : Returns (next ⟨⟩) state' post) :
    Returns (MonadStateOf.set state' >>= next) state post :=
  Returns.bind
    (M := fun _ final => final = state')
    ⟨⟨⟩, state', rfl, rfl⟩
    (by rintro _ _ rfl; exact rest)

theorem Returns.modify {update : σ → σ} {post : PUnit → σ → Prop}
    (holds : post ⟨⟩ (update state)) :
    Returns (modifyThe σ update : StateT σ (Except ε) PUnit) state post :=
  ⟨⟨⟩, update state, rfl, holds⟩

/-! ## Partial correctness -/

/-- If the program returns, its result and final state satisfy `post`. -/
def Ensures (program : StateT σ (Except ε) α) (state : σ) (post : α → σ → Prop) :
    Prop :=
  ∀ result final, program.run state = .ok (result, final) → post result final

theorem Ensures.pure {result : α} (holds : post result state) :
    Ensures (Pure.pure result : StateT σ (Except ε) α) state post := by
  intro result' final ran
  cases ran
  exact holds

theorem Ensures.throw {error : ε} :
    Ensures (MonadExcept.throw error : StateT σ (Except ε) α) state post := by
  intro result final ran
  cases ran

theorem Ensures.mono (ensures : Ensures program state post)
    (weaker : ∀ result final, post result final → post' result final) :
    Ensures program state post' :=
  fun result final ran => weaker result final (ensures result final ran)

theorem Ensures.bind {post : β → σ → Prop} (first : Ensures program state M)
    (second : ∀ result final, M result final → Ensures (next result) final post) :
    Ensures (program >>= next) state post := by
  intro result final ran
  rcases run_bind_eq_ok.1 ran with ⟨middle, state', ran', ran''⟩
  exact second middle state' (first middle state' ran') result final ran''

/-- A program has one outcome. -/
theorem Returns.ensures (returns : Returns program state post) :
    Ensures program state post := by
  rcases returns with ⟨result, final, ran, holds⟩
  intro result' final' ran'
  cases ran.symm.trans ran'
  exact holds

/-! ## Programs whose failure is understood -/

/--
The program returns with a result and a final state that satisfy `post` if
`cond` holds, and fails otherwise.
-/
structure Decides (program : StateT σ (Except ε) α) (state : σ) (cond : Prop)
    (post : α → σ → Prop) :
    Prop where
  returns : cond → Returns program state post
  fails : ¬ cond → ∃ error, program.run state = .error error

theorem Decides.of_returns (always : cond) (returns : Returns program state post) :
    Decides program state cond post :=
  ⟨fun _ => returns, fun never => absurd always never⟩

theorem Decides.throw {error : ε} (never : ¬ cond) :
    Decides (MonadExcept.throw error : StateT σ (Except ε) α) state cond post :=
  ⟨fun holds => absurd holds never, fun _ => ⟨error, rfl⟩⟩

theorem Decides.throw_bind {error : ε} {post : β → σ → Prop} (never : ¬ cond) :
    Decides ((MonadExcept.throw error : StateT σ (Except ε) α) >>= next) state cond post :=
  ⟨fun holds => absurd holds never, fun _ => ⟨error, rfl⟩⟩

theorem Decides.mono {cond' : Prop} (decides : Decides program state cond post)
    (same : cond' ↔ cond)
    (weaker : cond → ∀ result final, post result final → post' result final) :
    Decides program state cond' post' where
  returns holds := (decides.returns (same.mp holds)).mono (weaker (same.mp holds))
  fails never := decides.fails fun holds => never (same.mpr holds)

/-- A program fails if its first or its second part fails. -/
theorem Decides.bind {rest : Prop} {post : β → σ → Prop} (first : Decides program state cond M)
    (second : cond → ∀ result final, M result final → Decides (next result) final rest post) :
    Decides (program >>= next) state (cond ∧ rest) post := by
  constructor
  · rintro ⟨holds, holds'⟩
    exact (first.returns holds).bind fun result final related =>
      (second holds result final related).returns holds'
  · intro never
    by_cases holds : cond
    · rcases first.returns holds with ⟨result, middle, ran, related⟩
      have never' : ¬ rest := fun holds' => never ⟨holds, holds'⟩
      rcases (second holds result middle related).fails never' with
        ⟨error, failed⟩
      refine ⟨error, ?_⟩
      rw [StateT.run_bind, ran]
      exact failed
    · rcases first.fails holds with ⟨error, failed⟩
      refine ⟨error, ?_⟩
      rw [StateT.run_bind, failed]
      rfl

/-- The first part of a program returns anyway. -/
theorem Returns.bind_decides {post : β → σ → Prop} (first : Returns program state M)
    (second : ∀ result final, M result final → Decides (next result) final cond post) :
    Decides (program >>= next) state cond post :=
  ((Decides.of_returns trivial first).bind fun _ => second).mono (by simp) fun _ _ _ holds => holds

/-- The last part of a program returns anyway. -/
theorem Decides.bind_returns {post : β → σ → Prop} (first : Decides program state cond M)
    (second : cond → ∀ result final, M result final → Returns (next result) final post) :
    Decides (program >>= next) state cond post :=
  (first.bind fun holds result final related =>
    Decides.of_returns trivial (second holds result final related)).mono
      (by simp) fun _ _ _ holds => holds

theorem Decides.get_bind {next : σ → StateT σ (Except ε) β} {post : β → σ → Prop}
    (rest : Decides (next state) state cond post) :
    Decides (MonadState.get >>= next) state cond post :=
  ⟨fun holds => (rest.returns holds).get_bind, rest.fails⟩

/-! ## Loops without a state -/

theorem exists_of_mem_mapM {f : α → Option β} {items : List α} {results : List β}
    (mapped : items.mapM f = some results) {result : β} (member : result ∈ results) :
    ∃ item ∈ items, f item = some result := by
  induction items generalizing results with
  | nil =>
    cases mapped
    simp at member
  | cons item items ih =>
    rw [List.mapM_cons] at mapped
    rcases Option.bind_eq_some_iff.mp mapped with ⟨first, isFirst, mapped⟩
    rcases Option.bind_eq_some_iff.mp mapped with ⟨others, areOthers, mapped⟩
    cases mapped
    rcases List.mem_cons.mp member with rfl | member
    · exact ⟨item, by simp, isFirst⟩
    · rcases ih areOthers member with ⟨other, isOther, found⟩
      exact ⟨other, by simp [isOther], found⟩

end Effect
