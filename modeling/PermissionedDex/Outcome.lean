import PermissionedDex.Chain

/-!
# What a run shows: its trace and its outcome

The registration order of the middlewares is the order of every loop of `run`: a run that
succeeds calls the `instruction` hook of each middleware in order, then one hook of each
middleware in order (the hook of the instruction's arm, or `fallback`), then makes the
calls the hooks queued, in order (`run_trace_of_ok`).

`Logger` only writes to the program log (`msg!`), which the model leaves out: its
`instruction` hook leaves the data as it is and each of its hooks returns its input.  So a
`Logger` at any position of any chain changes neither the outcome of a run nor the external
calls it makes; only the positions of the hooks after it move in the trace.

* `MarketProxy.foldl_middleware`: the builder registers the middlewares in the order of its
  calls.
* `prepare_events_of_ok`: the trace of a `prepare` that succeeds.
* `run_congr_prepare`: the outcome and the calls of a run depend only on what `prepare`
  returns.
* `foldlM_insert_id`, `dispatch_insert_logger`, `preParse_insert_logger`: a hook that
  returns its input changes no loop of `run`.
* `run_logger_transparent`: a run with a `Logger` inserted has the outcome and the calls of
  the run without it.
-/

namespace PermissionedDex

open Traced

/-! ## The registration order -/

/-- `MarketProxy::new().middleware(m₁).middleware(m₂)…` registers the middlewares in the
order of the calls: the proxy of a chain, over which the results are stated. -/
theorem MarketProxy.foldl_middleware (mws : List MarketMiddleware) :
    mws.foldl MarketProxy.middleware MarketProxy.new = ⟨mws⟩ := by
  suffices h : ∀ acc, mws.foldl MarketProxy.middleware ⟨acc⟩ = ⟨acc ++ mws⟩ from h []
  induction mws with
  | nil => intro acc; rw [List.append_nil]; rfl
  | cons m mws ih => intro acc; rw [List.foldl_cons, middleware, ih, List.append_assoc]; rfl

/-! ## What a run depends on -/

section Congr

variable {W : Type} (codec : Codec) (host : Host W) (programId : Pubkey)
  (accounts : List AccountInfo) (data : Bytes) (w : W)

theorem prepare_filter_isCall (self : MarketProxy) :
    (self.prepare codec programId accounts data).events.filter Event.isCall = [] :=
  List.filter_eq_nil_iff.mpr fun ev hev => by
    simp [prepare_events_not_call self codec programId data accounts ev hev]

/-- Two proxies whose `prepare` returns the same thing run to the same outcome through the
same external calls. -/
theorem run_congr_prepare {self self' : MarketProxy}
    (h : (self.prepare codec programId accounts data).result =
      (self'.prepare codec programId accounts data).result) :
    (self.run codec host programId accounts data w).result =
        (self'.run codec host programId accounts data w).result ∧
      (self.run codec host programId accounts data w).events.filter Event.isCall =
        (self'.run codec host programId accounts data w).events.filter Event.isCall := by
  cases hp : (self.prepare codec programId accounts data).result with
  | error e =>
    rw [hp] at h
    rw [run_of_prepare_error _ codec host programId accounts data w hp,
      run_of_prepare_error _ codec host programId accounts data w h.symm]
    exact ⟨rfl, by simp only [prepare_filter_isCall]⟩
  | ok o =>
    rw [hp] at h
    rcases o with _ | ⟨ctx, ix⟩
    · rw [run_of_prepare_none _ codec host programId accounts data w hp,
        run_of_prepare_none _ codec host programId accounts data w h.symm]
      exact ⟨rfl, by simp only [prepare_filter_isCall]⟩
    · rw [run_of_prepare_some _ codec host programId accounts data w hp,
        run_of_prepare_some _ codec host programId accounts data w h.symm]
      exact ⟨rfl, by simp only [List.filter_append, prepare_filter_isCall]⟩

end Congr

/-! ## The trace of a run that succeeds -/

/-- A hook keeps the arm of the instruction it is passed: it may change the payload, not
the operation. -/
theorem Hooks.call_arm (h : Hooks) {s s' : Context × MarketInstruction} (hc : h.call s = .ok s') :
    s'.2.arm = s.2.arm := by
  obtain ⟨ctx, mi⟩ := s
  cases mi <;> first
    | (obtain ⟨_, -, rfl⟩ := Except.map_eq_ok.mp hc; rfl)
    | (cases hc; rfl)

/-- A `prepare` that succeeds called the `instruction` hook of each middleware, then one
hook of each middleware: `fallback` when it leaves nothing to relay, and otherwise the hook
of the arm of what it leaves. -/
theorem prepare_events_of_ok (self : MarketProxy) (codec : Codec) (programId : Pubkey)
    (accounts : List AccountInfo) (data : Bytes) {o : Option (Context × MarketInstruction)}
    (h : (self.prepare codec programId accounts data).result = .ok o) :
    ∃ hk, (self.prepare codec programId accounts data).events =
        (List.range' 0 self.middlewares.length).map .instruction ++
          (List.range' 0 self.middlewares.length).map (.hook hk) ∧
      (o = none → hk = .fallback) ∧ ∀ ctx mi, o = some (ctx, mi) → ∃ n, mi.arm = some (hk, n) := by
  match accounts with
  | [] => rw [prepare_nil] at h; cases h
  | dex :: rest =>
    by_cases hd : dex.key = serumDexProgramId
    swap
    · rw [prepare_of_ne self codec programId data hd] at h; cases h
    cases hp : (preParse 0 self.middlewares data).result with
    | error e => rw [prepare_cons self codec programId data hd, bind_of_error hp] at h; cases h
    | ok r =>
      obtain ⟨d, hs⟩ := r
      have hlen := (preParse_events_of_ok hp).2
      rw [prepare_of_preParse_ok self codec programId data hd hp] at h ⊢
      dsimp only at h ⊢
      cases ha : (codec.unpack d).bind MarketInstruction.arm with
      | none =>
        rw [dispatch_of_arm_none ha, fallback_eq] at h ⊢
        obtain ⟨c, hc, rfl⟩ := Except.map_eq_ok.mp h
        exact ⟨.fallback, by rw [forHooks_events_of_ok _ _ hc, hlen], fun _ => rfl,
          fun _ _ h => nomatch h⟩
      | some a =>
        obtain ⟨hk, n⟩ := a
        obtain ⟨mi, hu, ha⟩ := Option.bind_eq_some.mp ha
        rw [hu] at h ⊢
        by_cases hl : (Context.new programId dex.key rest).accounts.length < n
        · rw [dispatch_of_lt ha hl] at h; cases h
        · rw [dispatch_of_le ha (Nat.not_lt.mp hl)] at h ⊢
          rw [result_map] at h
          obtain ⟨r, hr, rfl⟩ := Except.map_eq_ok.mp h
          refine ⟨hk, by rw [events_map, forHooks_events_of_ok _ _ hr, hlen], (fun h => nomatch h), ?_⟩
          rintro ctx mi' ⟨⟩
          rw [forHooks_result] at hr
          exact ⟨n, (foldlM_inv Hooks.call (fun s => s.2.arm = mi.arm)
            (fun h _ _ _ hc hs => (h.call_arm hc).trans hs) hr rfl).trans ha⟩

/-- Registration order is invocation order.  A run that succeeds called the `instruction`
hook of each middleware in order, then one hook of each middleware in order, then made a
list of external calls in order: either the hook is `fallback`, no call is made and the
state is left as it was, or the hook is the one of the arm of the instruction `prepare`
left, and the calls are every call of its context. -/
theorem run_trace_of_ok {W : Type} (self : MarketProxy) (codec : Codec) (host : Host W)
    (programId : Pubkey) (accounts : List AccountInfo) (data : Bytes) (w : W) {w' : W}
    (h : (self.run codec host programId accounts data w).result = .ok w') :
    ∃ hk calls, (self.run codec host programId accounts data w).events =
        (List.range' 0 self.middlewares.length).map .instruction ++
          (List.range' 0 self.middlewares.length).map (.hook hk) ++
            calls.map (fun p => .call p.1 p.2) ∧
      ((hk = .fallback ∧ calls = [] ∧ w' = w) ∨
        ∃ ctx mi n, (self.prepare codec programId accounts data).result = .ok (some (ctx, mi)) ∧
          mi.arm = some (hk, n) ∧ calls = ctx.calls programId (codec.pack mi)) := by
  cases hp : (self.prepare codec programId accounts data).result with
  | error e => rw [run_of_prepare_error self codec host programId accounts data w hp] at h; cases h
  | ok o =>
    obtain ⟨hk, hev, hnone, hsome⟩ := prepare_events_of_ok self codec programId accounts data hp
    rcases o with _ | ⟨ctx, mi⟩
    · rw [run_of_prepare_none self codec host programId accounts data w hp] at h ⊢
      cases h
      exact ⟨hk, [], by rw [hev, List.map_nil, List.append_nil], .inl ⟨hnone rfl, rfl, rfl⟩⟩
    · rw [run_of_prepare_some self codec host programId accounts data w hp] at h ⊢
      obtain ⟨n, hn⟩ := hsome ctx mi rfl
      exact ⟨hk, _, by rw [hev, callAll_events_of_ok host h], .inr ⟨ctx, mi, n, rfl, hn, rfl⟩⟩

/-- A settle through a proxy with one `Logger`, relayed by a host that accepts every call:
the run succeeds. -/
theorem run_trace_of_ok_settleFunds :
    (MarketProxy.run ⟨[Mw.logger.toMiddleware]⟩ ⟨fun _ => some .settleFunds, fun _ => []⟩
      (fun _ (w : Unit) => .ok w) serumDexProgramId
      (⟨serumDexProgramId, false, false, serumDexProgramId, []⟩ ::
        List.replicate 10 ⟨⟨List.replicate 32 2, rfl⟩, true, false, ⟨List.replicate 32 2, rfl⟩, []⟩)
      [] ()).result = .ok () ∧
    ∃ hk calls, (MarketProxy.run ⟨[Mw.logger.toMiddleware]⟩ ⟨fun _ => some .settleFunds, fun _ => []⟩
      (fun _ (w : Unit) => .ok w) serumDexProgramId
      (⟨serumDexProgramId, false, false, serumDexProgramId, []⟩ ::
        List.replicate 10 ⟨⟨List.replicate 32 2, rfl⟩, true, false, ⟨List.replicate 32 2, rfl⟩, []⟩)
      [] ()).events =
        (List.range' 0 1).map .instruction ++ (List.range' 0 1).map (.hook hk) ++
          calls.map (fun p => .call p.1 p.2) ∧
      ((hk = .fallback ∧ calls = [] ∧ () = ()) ∨
        ∃ ctx mi n, (MarketProxy.prepare ⟨[Mw.logger.toMiddleware]⟩
          ⟨fun _ => some .settleFunds, fun _ => []⟩ serumDexProgramId
          (⟨serumDexProgramId, false, false, serumDexProgramId, []⟩ ::
            List.replicate 10 ⟨⟨List.replicate 32 2, rfl⟩, true, false, ⟨List.replicate 32 2, rfl⟩, []⟩)
          []).result = .ok (some (ctx, mi)) ∧
          mi.arm = some (hk, n) ∧ calls = ctx.calls serumDexProgramId [] ) :=
  ⟨rfl, run_trace_of_ok _ _ _ _ _ _ () rfl⟩

/-! ## A hook that returns its input -/

/-- A hook that returns its input, inserted anywhere in a fold of hooks, changes nothing. -/
theorem foldlM_insert_id {σ : Type} (f : Hooks → σ → Except Fault σ) {h₀ : Hooks}
    (hf : ∀ s, f h₀ s = .ok s) (hs₁ hs₂ : List Hooks) (s : σ) :
    (hs₁ ++ h₀ :: hs₂).foldlM (fun s h => f h s) s = (hs₁ ++ hs₂).foldlM (fun s h => f h s) s := by
  simp only [List.foldlM_append, List.foldlM_cons, hf, Except.ok_bind]

theorem fallback_result (hs : List Hooks) (ctx : Context) :
    (fallback hs ctx).result = (fun _ => none) <$> hs.foldlM (fun s h => h.fallback s) ctx := by
  rw [fallback_eq, forHooks_result]

/-- The dispatch, with the hooks of a `Logger` inserted anywhere, has the same outcome. -/
theorem dispatch_insert_logger (hs₁ hs₂ : List Hooks) (ctx : Context) (ix : Option MarketInstruction) :
    (dispatch (hs₁ ++ Logger.hooks :: hs₂) ctx ix).result = (dispatch (hs₁ ++ hs₂) ctx ix).result := by
  have hlog : ∀ s, Logger.hooks.call s = .ok s := Hooks.call_default
  cases ha : ix.bind MarketInstruction.arm with
  | none =>
    rw [dispatch_of_arm_none ha, dispatch_of_arm_none ha, fallback_result, fallback_result,
      foldlM_insert_id Hooks.fallback (fun _ => rfl)]
  | some a =>
    obtain ⟨hk, n⟩ := a
    obtain ⟨mi, rfl, ha⟩ := Option.bind_eq_some.mp ha
    by_cases hl : ctx.accounts.length < n
    · rw [dispatch_of_lt ha hl, dispatch_of_lt ha hl]
    · rw [dispatch_of_le ha (Nat.not_lt.mp hl), dispatch_of_le ha (Nat.not_lt.mp hl), result_map,
        result_map, forHooks_result, forHooks_result, foldlM_insert_id Hooks.call hlog]

/-- The outcome of the pre-parse does not depend on the position it starts counting from. -/
theorem preParse_result_index (i j : Nat) (mws : List MarketMiddleware) (data : Bytes) :
    (preParse i mws data).result = (preParse j mws data).result := by
  induction mws generalizing i j data with
  | nil => rfl
  | cons mw mws ih =>
    cases hm : mw.instruction data with
    | error e => rw [preParse_cons_error hm, preParse_cons_error hm]
    | ok r => rw [preParse_result_cons_ok hm, preParse_result_cons_ok hm, ih (i + 1) (j + 1)]

/-- The pre-parse, with a middleware inserted anywhere whose `instruction` hook leaves the data
as it is: the same data left, and the hooks of that middleware at its position. -/
theorem preParse_insert (i : Nat) (l₁ l₂ : List MarketMiddleware) (data : Bytes)
    {mw₀ : MarketMiddleware} {h₀ : Hooks} (hmw : ∀ d, mw₀.instruction d = .ok (d, h₀)) :
    (preParse i (l₁ ++ mw₀ :: l₂) data).result =
      (preParse i l₁ data).result >>= fun r =>
        (fun rs => (rs.1, r.2 ++ h₀ :: rs.2)) <$> (preParse i l₂ r.1).result := by
  rw [preParse_append]
  congr 1
  funext r
  rw [preParse_result_cons_ok (hmw r.1), preParse_result_index _ i]
  cases (preParse i l₂ r.1).result <;> rfl

/-- The pre-parse, with a `Logger` inserted anywhere: the same data left, and the hooks of
the `Logger` at its position. -/
theorem preParse_insert_logger (i : Nat) (l₁ l₂ : List MarketMiddleware) (data : Bytes) :
    (preParse i (l₁ ++ Mw.logger.toMiddleware :: l₂) data).result =
      (preParse i l₁ data).result >>= fun r =>
        (fun rs => (rs.1, r.2 ++ Logger.hooks :: rs.2)) <$> (preParse i l₂ r.1).result :=
  preParse_insert i l₁ l₂ data fun _ => rfl

/-- `preParse_append`, with the second list counted from the same position. -/
theorem preParse_append_index (i : Nat) (l₁ l₂ : List MarketMiddleware) (data : Bytes) :
    (preParse i (l₁ ++ l₂) data).result =
      (preParse i l₁ data).result >>= fun r =>
        (fun rs => (rs.1, r.2 ++ rs.2)) <$> (preParse i l₂ r.1).result := by
  rw [preParse_append]
  congr 1
  funext r
  rw [preParse_result_index _ i]

/-- `prepare`, with a `Logger` inserted anywhere among any middlewares, has the same outcome. -/
theorem prepare_insert_logger (l₁ l₂ : List MarketMiddleware) (codec : Codec) (programId : Pubkey)
    (accounts : List AccountInfo) (data : Bytes) :
    (MarketProxy.prepare ⟨l₁ ++ Mw.logger.toMiddleware :: l₂⟩ codec programId accounts data).result =
      (MarketProxy.prepare ⟨l₁ ++ l₂⟩ codec programId accounts data).result := by
  match accounts with
  | [] => rw [prepare_nil, prepare_nil]
  | dex :: rest =>
    by_cases hd : dex.key = serumDexProgramId
    · rw [prepare_cons _ codec programId data hd, prepare_cons _ codec programId data hd, result_bind,
        result_bind, preParse_insert_logger, preParse_append_index]
      cases (preParse 0 l₁ data).result with
      | error e => rfl
      | ok r =>
        rw [Except.ok_bind, Except.ok_bind]
        cases (preParse 0 l₂ r.1).result with
        | error e => rfl
        | ok rs => exact dispatch_insert_logger r.2 rs.2 _ _
    · rw [prepare_of_ne _ codec programId data hd, prepare_of_ne _ codec programId data hd]

/-- A `Logger` inserted at any position of any chain of middlewares changes neither the
outcome of a run nor the external calls it makes, in order. -/
theorem run_logger_transparent {W : Type} (l₁ l₂ : List MarketMiddleware) (codec : Codec)
    (host : Host W) (programId : Pubkey) (accounts : List AccountInfo) (data : Bytes) (w : W) :
    (MarketProxy.run ⟨l₁ ++ Mw.logger.toMiddleware :: l₂⟩ codec host programId accounts data w).result =
        (MarketProxy.run ⟨l₁ ++ l₂⟩ codec host programId accounts data w).result ∧
      (MarketProxy.run ⟨l₁ ++ Mw.logger.toMiddleware :: l₂⟩ codec host programId accounts data
          w).events.filter Event.isCall =
        (MarketProxy.run ⟨l₁ ++ l₂⟩ codec host programId accounts data w).events.filter Event.isCall :=
  run_congr_prepare codec host programId accounts data w
    (prepare_insert_logger l₁ l₂ codec programId accounts data)

end PermissionedDex
