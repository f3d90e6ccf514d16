import PermissionedDex.Trace

/-!
# A run, step by step

`run` is `prepare` (the DEX check, the pre-parse, the dispatch) followed, when there
is something to relay, by `execute`.  `execute` makes the calls of
`Context.calls` in order: the pre instructions, the relay, the post instructions,
the post callbacks (`execute_eq`).  `prepare` records no external call
(`prepare_events_not_call`), so every call of a run comes from `execute` after
`prepare` has succeeded (`run_call`); the one relay event carries the working
accounts and the seeds of the context `prepare` left (`run_relay`).
-/

namespace PermissionedDex

open Traced

/-- An external call, as opposed to a hook. -/
def Event.isCall : Event → Bool
  | .call _ _ => true
  | _ => false

/-! ## External calls -/

section Calls

variable {W : Type} (host : Host W)

/-- The calls `execute` makes, in order. -/
def Context.calls (programId : Pubkey) (ctx : Context) (ixData : Bytes) : List (Phase × Call) :=
  ctx.preInstructions.map (fun e => (.pre, .invokeSigned e.1 e.2.1 e.2.2)) ++
    (.relay, .invokeSigned (relayInstruction ctx.accounts ixData) ctx.accounts ctx.seeds) ::
    (ctx.postInstructions.map (fun e => (.post, .invokeSigned e.1 e.2.1 e.2.2)) ++
    ctx.postCallbacks.map (fun e => (.callback, .postCallback e.1 programId e.2.1 ixData e.2.2)))

/-- Making a list of calls in order, stopping at the first that fails. -/
def callAll : List (Phase × Call) → W → Traced W
  | [], w => pure w
  | (ph, c) :: rest, w => do
    let w ← callHost host ph c w
    callAll rest w

theorem callHost_ok {ph : Phase} {c : Call} {w w' : W} (h : host c w = .ok w') :
    callHost host ph c w = ⟨[.call ph c], .ok w'⟩ := by
  simp only [callHost, emit_bind, liftErr, h]; rfl

theorem callHost_error {ph : Phase} {c : Call} {w : W} {e : ProgramError}
    (h : host c w = .error e) : callHost host ph c w = ⟨[.call ph c], .error (.error e)⟩ := by
  simp only [callHost, emit_bind, liftErr, h]; rfl

theorem callAll_cons (ph : Phase) (c : Call) (rest : List (Phase × Call)) (w : W) :
    callAll host ((ph, c) :: rest) w = callHost host ph c w >>= callAll host rest := rfl

theorem callAll_cons_ok {ph : Phase} {c : Call} {rest : List (Phase × Call)} {w w' : W}
    (h : host c w = .ok w') :
    callAll host ((ph, c) :: rest) w =
      ⟨.call ph c :: (callAll host rest w').events, (callAll host rest w').result⟩ := by
  rw [callAll_cons, callHost_ok host h]; rfl

theorem callAll_cons_error {ph : Phase} {c : Call} {rest : List (Phase × Call)} {w : W}
    {e : ProgramError} (h : host c w = .error e) :
    callAll host ((ph, c) :: rest) w = ⟨[.call ph c], .error (.error e)⟩ := by
  rw [callAll_cons, callHost_error host h]; rfl

theorem callAll_append (l₁ l₂ : List (Phase × Call)) (w : W) :
    callAll host (l₁ ++ l₂) w = callAll host l₁ w >>= callAll host l₂ := by
  induction l₁ generalizing w with
  | nil => rfl
  | cons p l₁ ih =>
    obtain ⟨ph, c⟩ := p
    cases h : host c w with
    | ok w' =>
      rw [List.cons_append, callAll_cons_ok host h, callAll_cons_ok host h, ih, eta (callAll host l₁ w')]
      cases (callAll host l₁ w').result <;> simp
    | error e => rw [List.cons_append, callAll_cons_error host h, callAll_cons_error host h]; rfl

theorem invokeAll_eq (ph : Phase) (l : List (Instruction × List AccountInfo × Seeds)) (w : W) :
    invokeAll host ph l w = callAll host (l.map fun e => (ph, .invokeSigned e.1 e.2.1 e.2.2)) w := by
  induction l generalizing w with
  | nil => rfl
  | cons e l ih =>
    obtain ⟨ix, accs, seeds⟩ := e
    show (callHost host ph _ w >>= fun w => invokeAll host ph l w) =
      (callHost host ph _ w >>= fun w => callAll host _ w)
    simp only [ih]

theorem runCallbacks_eq (programId : Pubkey) (ixData : Bytes)
    (l : List (PostCallback × List AccountInfo × Bytes)) (w : W) :
    runCallbacks host programId ixData l w =
      callAll host (l.map fun e => (.callback, .postCallback e.1 programId e.2.1 ixData e.2.2)) w := by
  induction l generalizing w with
  | nil => rfl
  | cons e l ih =>
    obtain ⟨f, accs, args⟩ := e
    show (callHost host .callback _ w >>= fun w => runCallbacks host programId ixData l w) =
      (callHost host .callback _ w >>= fun w => callAll host _ w)
    simp only [ih]

/-- `execute` makes the calls of `Context.calls`, in order. -/
theorem execute_eq (programId : Pubkey) (ctx : Context) (ixData : Bytes) (w : W) :
    execute host programId ctx ixData w = callAll host (ctx.calls programId ixData) w := by
  simp only [execute, invokeAll_eq, runCallbacks_eq, Context.calls, callAll_append]
  congr 1; funext w
  rw [callAll_cons]
  congr 1; funext w
  rw [callAll_append]

/-- A list of calls only records a prefix of itself, in order. -/
theorem callAll_events (l : List (Phase × Call)) (w : W) :
    ∃ m ≤ l.length, (callAll host l w).events = (l.take m).map fun p => .call p.1 p.2 := by
  induction l generalizing w with
  | nil => exact ⟨0, le_rfl, rfl⟩
  | cons p l ih =>
    obtain ⟨ph, c⟩ := p
    cases h : host c w with
    | ok w' =>
      obtain ⟨m, hm, he⟩ := ih w'
      rw [callAll_cons_ok host h]
      exact ⟨m + 1, by simp [hm], by simp [he]⟩
    | error e => rw [callAll_cons_error host h]; exact ⟨1, by simp, rfl⟩

/-- A list of calls that succeeds made every call, in order. -/
theorem callAll_events_of_ok {l : List (Phase × Call)} {w w' : W}
    (h : (callAll host l w).result = .ok w') :
    (callAll host l w).events = l.map fun p => .call p.1 p.2 := by
  induction l generalizing w with
  | nil => rfl
  | cons p l ih =>
    obtain ⟨ph, c⟩ := p
    cases hc : host c w with
    | ok w'' => rw [callAll_cons_ok host hc] at h ⊢; simp [ih h]
    | error e => rw [callAll_cons_error host hc] at h; cases h

/-- First failure of the calls: the calls before `j` succeed and call `j` fails. -/
theorem callAll_of_fails {l : List (Phase × Call)} {j : Nat} {ph : Phase} {c : Call} {w w' : W}
    {e : ProgramError} (hj : (callAll host (l.take j) w).result = .ok w')
    (hc : l[j]? = some (ph, c)) (he : host c w' = .error e) :
    callAll host l w = ⟨(l.take (j + 1)).map (fun p => .call p.1 p.2), .error (.error e)⟩ := by
  induction l generalizing j w with
  | nil => cases hc
  | cons p l ih =>
    obtain ⟨ph', c'⟩ := p
    cases j with
    | zero =>
      cases hj
      simp only [List.getElem?_cons_zero, Option.some.injEq, Prod.mk.injEq] at hc
      obtain ⟨rfl, rfl⟩ := hc
      rw [callAll_cons_error host he]; rfl
    | succ j =>
      rw [List.getElem?_cons_succ] at hc
      rw [List.take_succ_cons] at hj
      cases h : host c' w with
      | error e' => rw [callAll_cons_error host h] at hj; cases hj
      | ok w'' =>
        rw [callAll_cons_ok host h] at hj
        rw [callAll_cons_ok host h, ih hj hc]
        rfl

end Calls

/-! ## `prepare` -/

section Prepare

variable (self : MarketProxy) (codec : Codec) (programId : Pubkey) (data : Bytes)

theorem dispatch_events (hs : List Hooks) (ctx : Context) (ix : Option MarketInstruction) :
    ∀ ev ∈ (dispatch hs ctx ix).events, ev.isCall = false := by
  have hf : ∀ ev ∈ (fallback hs ctx).events, ev.isCall = false := by
    intro ev hev
    obtain ⟨m, -, he⟩ := forHooks_events .fallback Hooks.fallback 0 hs ctx
    rcases events_bind_subset _ _ ev hev with h | ⟨_, _, h⟩
    · rw [he] at h
      obtain ⟨j, -, rfl⟩ := List.mem_map.mp h
      rfl
    · cases h
  intro ev hev
  unfold dispatch at hev
  split at hev
  · split at hev
    · split at hev
      · cases hev
      · obtain ⟨m, -, he⟩ := forHooks_events _ Hooks.call 0 hs (ctx, _)
        rw [events_map, he] at hev
        obtain ⟨j, -, rfl⟩ := List.mem_map.mp hev
        rfl
    · exact hf ev hev
  · exact hf ev hev

variable {hs : List Hooks} {ctx : Context} {mi : MarketInstruction} {hk : Hook} {n : Nat}

theorem dispatch_of_lt (h : mi.arm = some (hk, n)) (hl : ctx.accounts.length < n) :
    dispatch hs ctx (some mi) = ⟨[], .error (ErrorCode.anchorError .notEnoughAccounts)⟩ := by
  simp only [dispatch, h, hl, if_true]; rfl

theorem dispatch_of_le (h : mi.arm = some (hk, n)) (hl : n ≤ ctx.accounts.length) :
    dispatch hs ctx (some mi) = some <$> forHooks hk Hooks.call 0 hs (ctx, mi) := by
  simp only [dispatch, h, Nat.not_lt.mpr hl, if_false]

theorem dispatch_of_arm_none {ix : Option MarketInstruction} (h : ix.bind MarketInstruction.arm = none) :
    dispatch hs ctx ix = fallback hs ctx := by
  match ix with
  | none => rfl
  | some mi => simp only [dispatch, show mi.arm = none from h]

theorem fallback_eq : fallback hs ctx =
    ⟨(forHooks .fallback Hooks.fallback 0 hs ctx).events,
      (fun _ => none) <$> (forHooks .fallback Hooks.fallback 0 hs ctx).result⟩ := by
  rw [fallback, eta (forHooks .fallback Hooks.fallback 0 hs ctx)]
  cases (forHooks .fallback Hooks.fallback 0 hs ctx).result <;> simp

theorem prepare_nil : self.prepare codec programId [] data = ⟨[], .error (.panic .indexOutOfBounds)⟩ :=
  rfl

theorem prepare_of_ne {dex : AccountInfo} {rest : List AccountInfo}
    (h : dex.key ≠ serumDexProgramId) :
    self.prepare codec programId (dex :: rest) data =
      ⟨[], .error (ErrorCode.anchorError .invalidTargetProgram)⟩ := by
  simp [MarketProxy.prepare, index, h, lift]

theorem prepare_cons {dex : AccountInfo} {rest : List AccountInfo}
    (h : dex.key = serumDexProgramId) :
    self.prepare codec programId (dex :: rest) data =
      (preParse 0 self.middlewares data >>= fun r =>
        dispatch r.2 (Context.new programId dex.key rest) (codec.unpack r.1)) := by
  simp [MarketProxy.prepare, index, h, sliceFrom]

/-- `prepare` makes no external call. -/
theorem prepare_events_not_call (accounts : List AccountInfo) :
    ∀ ev ∈ (self.prepare codec programId accounts data).events, ev.isCall = false := by
  intro ev hev
  match accounts with
  | [] => rw [prepare_nil] at hev; cases hev
  | dex :: rest =>
    by_cases h : dex.key = serumDexProgramId
    · rw [prepare_cons self codec programId data h] at hev
      rcases events_bind_subset _ _ ev hev with h | ⟨_, _, h⟩
      · obtain ⟨m, -, he⟩ := preParse_events 0 self.middlewares data
        rw [he] at h
        obtain ⟨j, -, rfl⟩ := List.mem_map.mp h
        rfl
      · exact dispatch_events _ _ _ ev h
    · rw [prepare_of_ne self codec programId data h] at hev; cases hev

end Prepare

/-! ## `run` -/

section Run

variable {W : Type} (self : MarketProxy) (codec : Codec) (host : Host W) (programId : Pubkey)
  (accounts : List AccountInfo) (data : Bytes) (w : W)

theorem run_of_prepare_error {e : Fault}
    (h : (self.prepare codec programId accounts data).result = .error e) :
    self.run codec host programId accounts data w =
      ⟨(self.prepare codec programId accounts data).events, .error e⟩ :=
  bind_of_error h _

theorem run_of_prepare_none (h : (self.prepare codec programId accounts data).result = .ok none) :
    self.run codec host programId accounts data w =
      ⟨(self.prepare codec programId accounts data).events, .ok w⟩ := by
  rw [MarketProxy.run, bind_of_ok h]; simp

theorem run_of_prepare_some {ctx : Context} {ix : MarketInstruction}
    (h : (self.prepare codec programId accounts data).result = .ok (some (ctx, ix))) :
    self.run codec host programId accounts data w =
      ⟨(self.prepare codec programId accounts data).events ++
        (callAll host (ctx.calls programId (codec.pack ix)) w).events,
        (callAll host (ctx.calls programId (codec.pack ix)) w).result⟩ := by
  rw [MarketProxy.run, bind_of_ok h]
  simp only [execute_eq]

/-- Every external call of a run is a call of the context `prepare` left, made after
`prepare` succeeded. -/
theorem run_call {ph : Phase} {c : Call}
    (h : Event.call ph c ∈ (self.run codec host programId accounts data w).events) :
    ∃ ctx ix, (self.prepare codec programId accounts data).result = .ok (some (ctx, ix)) ∧
      (ph, c) ∈ ctx.calls programId (codec.pack ix) := by
  rcases events_bind_subset _ _ _ h with h | ⟨a, ha, h⟩
  · exact absurd (prepare_events_not_call self codec programId data accounts _ h) (by simp [Event.isCall])
  · match a, ha, h with
    | none, _, h => cases h
    | some (ctx, ix), ha, h =>
      refine ⟨ctx, ix, ha, ?_⟩
      simp only [execute_eq] at h
      obtain ⟨m, -, he⟩ := callAll_events host (ctx.calls programId (codec.pack ix)) w
      rw [he] at h
      obtain ⟨p, hp, hpe⟩ := List.mem_map.mp h
      cases hpe
      exact List.mem_of_mem_take hp

/-- The relay of a run forwards the working accounts of the context `prepare` left,
signed by its seeds. -/
theorem run_relay {c : Call}
    (h : Event.call .relay c ∈ (self.run codec host programId accounts data w).events) :
    ∃ ctx ix, (self.prepare codec programId accounts data).result = .ok (some (ctx, ix)) ∧
      c = .invokeSigned (relayInstruction ctx.accounts (codec.pack ix)) ctx.accounts ctx.seeds := by
  obtain ⟨ctx, ix, hp, hc⟩ := run_call self codec host programId accounts data w h
  refine ⟨ctx, ix, hp, ?_⟩
  simp only [Context.calls, List.mem_append, List.mem_cons, List.mem_map, Prod.mk.injEq] at hc
  rcases hc with ⟨_, _, h, _⟩ | ⟨-, rfl⟩ | ⟨_, _, h, _⟩ | ⟨_, _, h, _⟩ <;> first | rfl | cases h

end Run

/-! ## Fail fast -/

section FailFast

variable {W : Type} (self : MarketProxy) (codec : Codec) (host : Host W) (programId : Pubkey)
  (data : Bytes) (w : W) {dex : AccountInfo} {rest : List AccountInfo}

/-- Once the DEX check and the pre-parse passed, `prepare` is the dispatch of what is left. -/
theorem prepare_of_preParse_ok (hd : dex.key = serumDexProgramId) {d : Bytes} {hs : List Hooks}
    (hp : (preParse 0 self.middlewares data).result = .ok (d, hs)) :
    self.prepare codec programId (dex :: rest) data =
      ⟨(List.range' 0 self.middlewares.length).map .instruction ++
          (dispatch hs (Context.new programId dex.key rest) (codec.unpack d)).events,
        (dispatch hs (Context.new programId dex.key rest) (codec.unpack d)).result⟩ := by
  rw [prepare_cons self codec programId data hd, bind_of_ok hp, (preParse_events_of_ok hp).1]

/-- `prepare` leaves something to relay only when the DEX check, every `instruction` hook,
the count check of the arm and every hook of the arm passed. -/
theorem prepare_ok_some {accounts : List AccountInfo} {r : Context × MarketInstruction}
    (h : (self.prepare codec programId accounts data).result = .ok (some r)) :
    ∃ dex rest d hs mi hk n, accounts = dex :: rest ∧ dex.key = serumDexProgramId ∧
      (preParse 0 self.middlewares data).result = .ok (d, hs) ∧ codec.unpack d = some mi ∧
      mi.arm = some (hk, n) ∧ n ≤ rest.length ∧
      hs.foldlM (fun s h => h.call s) (Context.new programId dex.key rest, mi) = .ok r := by
  match accounts with
  | [] => rw [prepare_nil] at h; cases h
  | dex :: rest =>
    by_cases hd : dex.key = serumDexProgramId
    · cases hp : (preParse 0 self.middlewares data).result with
      | error e =>
        rw [prepare_cons self codec programId data hd, bind_of_error hp] at h; cases h
      | ok p =>
        obtain ⟨d, hs⟩ := p
        rw [prepare_of_preParse_ok self codec programId data hd hp] at h
        have hfb : ∀ {ix}, ix.bind MarketInstruction.arm = none →
            (dispatch hs (Context.new programId dex.key rest) ix).result ≠ .ok (some r) := by
          intro ix hix
          rw [dispatch_of_arm_none hix, fallback_eq]
          cases (forHooks .fallback Hooks.fallback 0 hs _).result <;> simp [Functor.map, Except.map]
        cases hu : codec.unpack d with
        | none => rw [hu] at h; exact absurd h (hfb rfl)
        | some mi =>
          rw [hu] at h
          cases ha : mi.arm with
          | none => exact absurd h (hfb (by simp [ha]))
          | some a =>
            obtain ⟨hk, n⟩ := a
            by_cases hl : rest.length < n
            · rw [dispatch_of_lt ha (by simpa [Context.new] using hl)] at h; cases h
            · rw [dispatch_of_le ha (by simpa [Context.new] using hl), result_map,
                forHooks_result] at h
              refine ⟨dex, rest, d, hs, mi, hk, n, rfl, hd, rfl, hu, ha, by omega, ?_⟩
              revert h
              cases hs.foldlM (fun s h => h.call s) (Context.new programId dex.key rest, mi) <;>
                simp [Functor.map, Except.map]
    · rw [prepare_of_ne self codec programId data hd] at h; cases h

/-- The first failing `instruction` hook ends the run, with its error. -/
theorem run_of_instruction_fails (hd : dex.key = serumDexProgramId) {k : Nat}
    {mw : MarketMiddleware} {d : Bytes} {hs : List Hooks} {e : Fault}
    (hk : (preParse 0 (self.middlewares.take k) data).result = .ok (d, hs))
    (hm : self.middlewares[k]? = some mw) (he : mw.instruction d = .error e) :
    self.run codec host programId (dex :: rest) data w =
      ⟨(List.range' 0 (k + 1)).map .instruction, .error e⟩ := by
  have hp : self.prepare codec programId (dex :: rest) data =
      ⟨(List.range' 0 (k + 1)).map .instruction, .error e⟩ := by
    rw [prepare_cons self codec programId data hd, preParse_of_fails hk hm he]; rfl
  rw [run_of_prepare_error self codec host programId _ data w (by rw [hp]), hp]

section Arm

variable (hd : dex.key = serumDexProgramId) {d : Bytes} {hs : List Hooks}
  (hp : (preParse 0 self.middlewares data).result = .ok (d, hs)) {mi : MarketInstruction}
  (hu : codec.unpack d = some mi) {hk : Hook} {n : Nat} (ha : mi.arm = some (hk, n))
include hd hp hu ha

/-- Too few working accounts for the arm: the run fails before any hook of the arm. -/
theorem run_of_lt (hl : rest.length < n) :
    self.run codec host programId (dex :: rest) data w =
      ⟨(List.range' 0 self.middlewares.length).map .instruction,
        .error (ErrorCode.anchorError .notEnoughAccounts)⟩ := by
  have hp' : self.prepare codec programId (dex :: rest) data = _ :=
    prepare_of_preParse_ok self codec programId data hd hp
  rw [hu, dispatch_of_lt ha (by simpa [Context.new] using hl)] at hp'
  rw [run_of_prepare_error self codec host programId _ data w (by rw [hp']), hp', List.append_nil]

/-- The first failing hook of the arm ends the run, with its error. -/
theorem run_of_hook_fails (hl : n ≤ rest.length) {k : Nat} {h : Hooks}
    {t : Context × MarketInstruction} {e : Fault}
    (hk' : (hs.take k).foldlM (fun s h => h.call s) (Context.new programId dex.key rest, mi) = .ok t)
    (hh : hs[k]? = some h) (he : h.call t = .error e) :
    self.run codec host programId (dex :: rest) data w =
      ⟨(List.range' 0 self.middlewares.length).map .instruction ++
        (List.range' 0 (k + 1)).map (.hook hk), .error e⟩ := by
  have hp' : self.prepare codec programId (dex :: rest) data = _ :=
    prepare_of_preParse_ok self codec programId data hd hp
  rw [hu, dispatch_of_le ha (by simpa [Context.new] using hl),
    forHooks_of_fails hk Hooks.call hk' hh he, map_mk_error] at hp'
  rw [run_of_prepare_error self codec host programId _ data w (by rw [hp']), hp']

end Arm

/-- An unrecognised instruction runs the fallback hooks and makes no external call; the
run succeeds exactly when every fallback hook does, having called each once, in order. -/
theorem run_of_unrecognised (hd : dex.key = serumDexProgramId) {d : Bytes} {hs : List Hooks}
    (hp : (preParse 0 self.middlewares data).result = .ok (d, hs))
    (hu : (codec.unpack d).bind MarketInstruction.arm = none) :
    (∀ ev ∈ (self.run codec host programId (dex :: rest) data w).events, ev.isCall = false) ∧
    ((self.run codec host programId (dex :: rest) data w).result = .ok w ↔
      ∃ c, hs.foldlM (fun c h => h.fallback c) (Context.new programId dex.key rest) = .ok c) ∧
    ((self.run codec host programId (dex :: rest) data w).result = .ok w →
      (self.run codec host programId (dex :: rest) data w).events =
        (List.range' 0 self.middlewares.length).map .instruction ++
          (List.range' 0 self.middlewares.length).map (.hook .fallback)) := by
  have hp' : self.prepare codec programId (dex :: rest) data = _ :=
    prepare_of_preParse_ok self codec programId data hd hp
  rw [dispatch_of_arm_none hu, fallback_eq, forHooks_result] at hp'
  have hlen := (preParse_events_of_ok hp).2
  cases hf : hs.foldlM (fun c h => h.fallback c) (Context.new programId dex.key rest) with
  | error e =>
    rw [hf] at hp'
    have hr := run_of_prepare_error self codec host programId _ data w (by rw [hp']; rfl)
    refine ⟨fun ev hev => ?_, ?_, ?_⟩
    · rw [hr] at hev
      exact prepare_events_not_call self codec programId data _ ev hev
    · rw [hr]; simp
    · rw [hr]; simp
  | ok c =>
    rw [hf] at hp'
    have hr := run_of_prepare_none self codec host programId _ data w (by rw [hp']; rfl)
    refine ⟨fun ev hev => ?_, by rw [hr]; simp, fun _ => ?_⟩
    · rw [hr] at hev
      exact prepare_events_not_call self codec programId data _ ev hev
    · rw [hr, hp', forHooks_events_of_ok .fallback Hooks.fallback
        ((forHooks_result _ _ _ _ _).trans hf), hlen]

/-- The first failing fallback hook ends the run, with its error: no fallback hook after it
runs. -/
theorem run_of_fallback_fails (hd : dex.key = serumDexProgramId) {d : Bytes} {hs : List Hooks}
    (hp : (preParse 0 self.middlewares data).result = .ok (d, hs))
    (hu : (codec.unpack d).bind MarketInstruction.arm = none) {k : Nat} {h : Hooks} {c : Context}
    {e : Fault}
    (hk : (hs.take k).foldlM (fun c h => h.fallback c) (Context.new programId dex.key rest) = .ok c)
    (hh : hs[k]? = some h) (he : h.fallback c = .error e) :
    self.run codec host programId (dex :: rest) data w =
      ⟨(List.range' 0 self.middlewares.length).map .instruction ++
        (List.range' 0 (k + 1)).map (.hook .fallback), .error e⟩ := by
  have hp' : self.prepare codec programId (dex :: rest) data = _ :=
    prepare_of_preParse_ok self codec programId data hd hp
  rw [dispatch_of_arm_none hu, fallback_eq, forHooks_of_fails .fallback Hooks.fallback hk hh he] at hp'
  rw [run_of_prepare_error self codec host programId _ data w (by rw [hp']; rfl), hp']

/-- The first failing external call ends the run, with its error. -/
theorem run_of_call_fails {accounts : List AccountInfo} {ctx : Context} {ix : MarketInstruction}
    (hp : (self.prepare codec programId accounts data).result = .ok (some (ctx, ix))) {j : Nat}
    {ph : Phase} {c : Call} {w' : W} {e : ProgramError}
    (hj : (callAll host ((ctx.calls programId (codec.pack ix)).take j) w).result = .ok w')
    (hc : (ctx.calls programId (codec.pack ix))[j]? = some (ph, c)) (he : host c w' = .error e) :
    self.run codec host programId accounts data w =
      ⟨(self.prepare codec programId accounts data).events ++
        ((ctx.calls programId (codec.pack ix)).take (j + 1)).map (fun p => .call p.1 p.2),
        .error (.error e)⟩ := by
  rw [run_of_prepare_some self codec host programId accounts data w hp, callAll_of_fails host hj hc he]

/-- Fail fast.  A run makes external calls only after the DEX check, every `instruction`
hook, the account count of the arm and every hook of the arm have passed; the first
step that fails ends the run with its error, and nothing is called after it; an
instruction with no arm runs the fallback hooks, makes no external call, and succeeds
exactly when every fallback hook does; the first fallback hook that fails ends the run
with its error, and no later fallback hook runs. -/
theorem run_fail_fast (accounts : List AccountInfo) :
    -- external calls only after every check and every hook of the arm
    (∀ ev ∈ (self.run codec host programId accounts data w).events, ev.isCall = true →
      ∃ dex rest d hs mi hk n r, accounts = dex :: rest ∧ dex.key = serumDexProgramId ∧
        (preParse 0 self.middlewares data).result = .ok (d, hs) ∧ codec.unpack d = some mi ∧
        mi.arm = some (hk, n) ∧ n ≤ rest.length ∧
        hs.foldlM (fun s h => h.call s) (Context.new programId dex.key rest, mi) = .ok r) ∧
    -- the DEX check
    (accounts = [] →
      self.run codec host programId accounts data w = ⟨[], .error (.panic .indexOutOfBounds)⟩) ∧
    (∀ dex rest, accounts = dex :: rest → dex.key ≠ serumDexProgramId →
      self.run codec host programId accounts data w =
        ⟨[], .error (ErrorCode.anchorError .invalidTargetProgram)⟩) ∧
    -- the first `instruction` hook that fails
    (∀ dex rest k mw d hs e, accounts = dex :: rest → dex.key = serumDexProgramId →
      (preParse 0 (self.middlewares.take k) data).result = .ok (d, hs) →
      self.middlewares[k]? = some mw → mw.instruction d = .error e →
      self.run codec host programId accounts data w =
        ⟨(List.range' 0 (k + 1)).map .instruction, .error e⟩) ∧
    -- the account count of the arm, then the first hook of the arm that fails
    (∀ dex rest d hs mi hk n, accounts = dex :: rest → dex.key = serumDexProgramId →
      (preParse 0 self.middlewares data).result = .ok (d, hs) → codec.unpack d = some mi →
      mi.arm = some (hk, n) →
      (rest.length < n → self.run codec host programId accounts data w =
        ⟨(List.range' 0 self.middlewares.length).map .instruction,
          .error (ErrorCode.anchorError .notEnoughAccounts)⟩) ∧
      (n ≤ rest.length → ∀ k h t e,
        (hs.take k).foldlM (fun s h => h.call s) (Context.new programId dex.key rest, mi) = .ok t →
        hs[k]? = some h → h.call t = .error e →
        self.run codec host programId accounts data w =
          ⟨(List.range' 0 self.middlewares.length).map .instruction ++
            (List.range' 0 (k + 1)).map (.hook hk), .error e⟩)) ∧
    -- no arm: the fallback hooks and nothing else
    (∀ dex rest d hs, accounts = dex :: rest → dex.key = serumDexProgramId →
      (preParse 0 self.middlewares data).result = .ok (d, hs) →
      (codec.unpack d).bind MarketInstruction.arm = none →
      (∀ ev ∈ (self.run codec host programId accounts data w).events, ev.isCall = false) ∧
      ((self.run codec host programId accounts data w).result = .ok w ↔
        ∃ c, hs.foldlM (fun c h => h.fallback c) (Context.new programId dex.key rest) = .ok c) ∧
      ((self.run codec host programId accounts data w).result = .ok w →
        (self.run codec host programId accounts data w).events =
          (List.range' 0 self.middlewares.length).map .instruction ++
            (List.range' 0 self.middlewares.length).map (.hook .fallback)) ∧
      (∀ k h c e,
        (hs.take k).foldlM (fun c h => h.fallback c) (Context.new programId dex.key rest) = .ok c →
        hs[k]? = some h → h.fallback c = .error e →
        self.run codec host programId accounts data w =
          ⟨(List.range' 0 self.middlewares.length).map .instruction ++
            (List.range' 0 (k + 1)).map (.hook .fallback), .error e⟩)) ∧
    -- the first external call that fails
    (∀ ctx ix j ph c w' e,
      (self.prepare codec programId accounts data).result = .ok (some (ctx, ix)) →
      (callAll host ((ctx.calls programId (codec.pack ix)).take j) w).result = .ok w' →
      (ctx.calls programId (codec.pack ix))[j]? = some (ph, c) → host c w' = .error e →
      self.run codec host programId accounts data w =
        ⟨(self.prepare codec programId accounts data).events ++
          ((ctx.calls programId (codec.pack ix)).take (j + 1)).map (fun p => .call p.1 p.2),
          .error (.error e)⟩) := by
  refine ⟨fun ev hev hc => ?_, fun h => ?_, fun dex rest h hd => ?_,
    fun dex rest k mw d hs e h hd hk hm he => ?_, fun dex rest d hs mi hk n h hd hp hu ha => ?_,
    fun dex rest d hs h hd hp hu => ?_, fun ctx ix j ph c w' e hp hj hc he => ?_⟩
  · obtain ⟨ph, c, rfl⟩ : ∃ ph c, ev = .call ph c := by
      cases ev <;> first | exact ⟨_, _, rfl⟩ | cases hc
    obtain ⟨ctx, ix, hp, -⟩ := run_call self codec host programId accounts data w hev
    obtain ⟨dex, rest, d, hs, mi, hk, n, h⟩ := prepare_ok_some self codec programId data hp
    exact ⟨dex, rest, d, hs, mi, hk, n, (ctx, ix), h⟩
  · subst h
    exact run_of_prepare_error self codec host programId _ data w (by rw [prepare_nil])
  · subst h
    rw [run_of_prepare_error self codec host programId _ data w
      (by rw [prepare_of_ne self codec programId data hd]), prepare_of_ne self codec programId data hd]
  · subst h; exact run_of_instruction_fails self codec host programId data w hd hk hm he
  · subst h
    exact ⟨run_of_lt self codec host programId data w hd hp hu ha,
      fun hl _ _ _ _ hk' hh he => run_of_hook_fails self codec host programId data w hd hp hu ha hl hk' hh he⟩
  · subst h
    obtain ⟨hcalls, hok, hevents⟩ := run_of_unrecognised self codec host programId data w hd hp hu
    exact ⟨hcalls, hok, hevents,
      fun _ _ _ _ hk hh he => run_of_fallback_fails self codec host programId data w hd hp hu hk hh he⟩
  · exact run_of_call_fails self codec host programId data w hp hj hc he

end FailFast

end PermissionedDex
