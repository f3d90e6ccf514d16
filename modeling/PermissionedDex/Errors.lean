import PermissionedDex.Chain

/-!
# The errors a run returns

`ErrorsIn S x`: every error `x` returns (as opposed to a panic) satisfies `S`.  It goes
through the do-blocks of the source with one simp lemma per operation, so each hook gets its
error set from its own text (`OpenOrdersPda.signAsPda_errorsIn`, …), and the loops of `run`
collect them (`foldlM_errorsIn`, `preParse_errorsIn`, `dispatch_errorsIn`).

* `run_errors`: for any chain of the crate's middlewares, a run that fails with an error
  fails with one of `proxyErrors`, or with the error the host returned for one of the calls
  the run made.  The codes the source declares but no path returns (`InvalidDexPid`,
  `InvalidInstruction`, `CannotUnpack`) are not among them, and `UnauthorizedUser` and
  `InvalidReferral` come as their bare discriminants, without the offset 500 of
  `NotEnoughAccounts` and `InvalidTargetProgram`.
-/

namespace PermissionedDex

/-- Every error `x` returns satisfies `S`; panics are not errors. -/
def ErrorsIn {α : Type} (S : ProgramError → Prop) (x : Except Fault α) : Prop :=
  ∀ e, x = .error (.error e) → S e

section ErrorsIn

variable {α β : Type} {S : ProgramError → Prop}

@[simp] theorem errorsIn_ok (a : α) : ErrorsIn S (.ok a : Except Fault α) := fun _ h => nomatch h

@[simp] theorem errorsIn_panic (p : Panic) : ErrorsIn S (.error (.panic p) : Except Fault α) :=
  fun _ h => nomatch h

@[simp] theorem errorsIn_error (e : ProgramError) :
    ErrorsIn S (.error (.error e) : Except Fault α) ↔ S e :=
  ⟨fun h => h e rfl, fun h _ he => by cases he; exact h⟩

@[simp] theorem errorsIn_pure (a : α) : ErrorsIn S (pure a : Except Fault α) := errorsIn_ok a

@[simp] theorem errorsIn_bind {x : Except Fault α} {f : α → Except Fault β} :
    ErrorsIn S (x >>= f) ↔ ErrorsIn S x ∧ ∀ a, x = .ok a → ErrorsIn S (f a) := by
  cases x with
  | error e => cases e <;> simp [bind, Except.bind]
  | ok a => simp [bind, Except.bind]

@[simp] theorem errorsIn_map {x : Except Fault α} {f : α → β} :
    ErrorsIn S (f <$> x) ↔ ErrorsIn S x := by
  cases x with
  | error e => cases e <;> simp [Functor.map, Except.map]
  | ok a => simp [Functor.map, Except.map]

@[simp] theorem errorsIn_ite {c : Prop} [Decidable c] {x y : Except Fault α} :
    ErrorsIn S (if c then x else y) ↔ (c → ErrorsIn S x) ∧ (¬c → ErrorsIn S y) := by
  split <;> simp_all

@[simp] theorem errorsIn_require {c : Prop} [Decidable c] {f : Fault} :
    ErrorsIn S (require c f) ↔ (¬c → ErrorsIn S (.error f : Except Fault Unit)) := by
  unfold require; split <;> simp_all

@[simp] theorem errorsIn_index (v : List α) (i : Nat) : ErrorsIn S (index v i) := by
  unfold index; split <;> simp

@[simp] theorem errorsIn_sliceFrom (v : List α) (lo : Nat) : ErrorsIn S (sliceFrom v lo) := by
  unfold sliceFrom; split <;> simp

@[simp] theorem errorsIn_slice (v : List α) (lo hi : Nat) : ErrorsIn S (slice v lo hi) := by
  unfold slice; split <;> simp

@[simp] theorem errorsIn_setAt (v : List α) (i : Nat) (a : α) : ErrorsIn S (setAt v i a) := by
  unfold setAt; split <;> simp

@[simp] theorem errorsIn_unwrap (o : Option α) : ErrorsIn S (unwrap o) := by
  cases o <;> simp [unwrap]

@[simp] theorem liftErr_ok (a : α) : liftErr (.ok a : Except ProgramError α) = .ok a := rfl

@[simp] theorem errorsIn_authority (a : AccountInfo) : ErrorsIn S (authority a) := by
  unfold authority; split <;> simp

/-- A fold of hooks returns only errors of its hooks. -/
theorem foldlM_errorsIn {σ : Type} {f : Hooks → σ → Except Fault σ} {hs : List Hooks}
    (h : ∀ k ∈ hs, ∀ s, ErrorsIn S (f k s)) : ∀ s, ErrorsIn S (hs.foldlM (fun s k => f k s) s) := by
  induction hs with
  | nil => intro s; exact errorsIn_ok s
  | cons k hs ih =>
    intro s
    rw [List.foldlM_cons, errorsIn_bind]
    exact ⟨h k (.head _) s, fun s' _ => ih (fun k' hk' => h k' (.tail _ hk')) s'⟩

end ErrorsIn

/-! ## The errors of each hook -/

namespace OpenOrdersPda

variable (self : OpenOrdersPda) {S : ProgramError → Prop}

theorem instruction_errorsIn (data : Bytes) : ErrorsIn S (self.instruction data) := by
  simp [instruction]

theorem signAsPda_errorsIn (hS : S (.custom ErrorCode.unauthorizedUser.discriminant))
    (m u p : Nat) (ctx : Context) : ErrorsIn S (self.signAsPda m u p ctx) := by
  simp [signAsPda, ErrorCode.custom, hS]

theorem initOpenOrders_errorsIn (hkeys : S .notEnoughAccountKeys)
    (hsig : S .missingRequiredSignature) (ctx : Context) : ErrorsIn S (self.initOpenOrders ctx) := by
  simp [initOpenOrders, validateInitAccounts, hkeys, hsig]

theorem approveAmount_errorsIn (ix : NewOrderInstructionV3) (market : AccountInfo) :
    ErrorsIn S (approveAmount ix market) := by
  unfold approveAmount; split <;> simp

theorem newOrderV3_errorsIn (hS : S (.custom ErrorCode.unauthorizedUser.discriminant))
    (ctx : Context) (ix : NewOrderInstructionV3) : ErrorsIn S (self.newOrderV3 ctx ix) := by
  simp [newOrderV3, ErrorCode.custom, hS, approveAmount_errorsIn]

theorem prune_errorsIn (ctx : Context) (limit : UInt16) : ErrorsIn S (prune ctx limit) := by
  simp [prune]

end OpenOrdersPda

theorem ReferralFees.settleFunds_errorsIn (rf : ReferralFees) {S : ProgramError → Prop}
    (hS : S (.custom ErrorCode.invalidReferral.discriminant)) (ctx : Context) :
    ErrorsIn S (rf.settleFunds ctx) := by
  simp [settleFunds, ErrorCode.custom, hS]

/-- The errors `run` and the hooks of the crate return of their own: `InvalidTargetProgram` and
`NotEnoughAccounts` through `error!` (the offset 500 plus the discriminant),
`UnauthorizedUser` and `InvalidReferral` as `ProgramError::Custom` of the bare discriminant,
and the two errors of `validate_init_accounts`. -/
def proxyErrors : List ProgramError :=
  [.custom (500 + ErrorCode.invalidTargetProgram.discriminant),
    .custom (500 + ErrorCode.notEnoughAccounts.discriminant),
    .custom ErrorCode.unauthorizedUser.discriminant, .custom ErrorCode.invalidReferral.discriminant,
    .notEnoughAccountKeys, .missingRequiredSignature]

example : proxyErrors = [.custom 506, .custom 505, .custom 4, .custom 3, .notEnoughAccountKeys,
    .missingRequiredSignature] := rfl

namespace Mw

theorem instruction_errorsIn (m : Mw) {S : ProgramError → Prop} (data : Bytes) :
    ErrorsIn S (m.toMiddleware.instruction data) := by
  cases m with
  | openOrdersPda p =>
    show ErrorsIn S ((fun r => (r.2, r.1.hooks)) <$> ((fun r => (Mw.openOrdersPda r.1, r.2)) <$>
      p.instruction data))
    simp only [errorsIn_map, p.instruction_errorsIn]
  | logger => exact errorsIn_ok _
  | referralFees rf => exact errorsIn_ok _

/-- Every hook of the crate returns only errors of `proxyErrors`. -/
theorem hooks_call_errorsIn (m : Mw) (s : Context × MarketInstruction) :
    ErrorsIn (· ∈ proxyErrors) (m.hooks.call s) := by
  have hu : ProgramError.custom ErrorCode.unauthorizedUser.discriminant ∈ proxyErrors := by decide
  have hkeys : ProgramError.notEnoughAccountKeys ∈ proxyErrors := by decide
  have hsig : ProgramError.missingRequiredSignature ∈ proxyErrors := by decide
  have hrf : ProgramError.custom ErrorCode.invalidReferral.discriminant ∈ proxyErrors := by decide
  obtain ⟨ctx, mi⟩ := s
  cases m with
  | openOrdersPda p =>
    cases mi <;> simp only [hooks, Hooks.call, OpenOrdersPda.hooks, errorsIn_map, errorsIn_ok,
      OpenOrdersPda.cancelOrderV2, OpenOrdersPda.cancelOrderByClientIdV2, OpenOrdersPda.settleFunds,
      OpenOrdersPda.closeOpenOrders, p.signAsPda_errorsIn hu, p.newOrderV3_errorsIn hu,
      OpenOrdersPda.prune_errorsIn, p.initOpenOrders_errorsIn hkeys hsig]
  | logger => simp only [hooks, Logger.hooks, Hooks.call_default, errorsIn_ok]
  | referralFees rf =>
    cases mi <;> simp only [hooks, Hooks.call, ReferralFees.hooks, errorsIn_map, errorsIn_ok,
      rf.settleFunds_errorsIn hrf]

theorem hooks_fallback_errorsIn (m : Mw) {S : ProgramError → Prop} (ctx : Context) :
    ErrorsIn S (m.hooks.fallback ctx) := by
  cases m <;> exact errorsIn_ok ctx

end Mw

/-! ## The loops of `run` -/

section Loops

variable {S : ProgramError → Prop}

theorem preParse_errorsIn {mws : List MarketMiddleware}
    (h : ∀ mw ∈ mws, ∀ d, ErrorsIn S (mw.instruction d)) (i : Nat) (data : Bytes) :
    ErrorsIn S (preParse i mws data).result := by
  induction mws generalizing i data with
  | nil => exact errorsIn_ok _
  | cons mw mws ih =>
    cases hm : mw.instruction data with
    | error e =>
      rw [preParse_cons_error hm]
      intro e' he'
      cases he'
      exact h mw (.head _) data _ hm
    | ok r =>
      rw [preParse_result_cons_ok hm, errorsIn_map]
      exact ih (fun mw' hmw' => h mw' (.tail _ hmw')) _ _

theorem dispatch_errorsIn {hs : List Hooks} (hcall : ∀ k ∈ hs, ∀ s, ErrorsIn S (k.call s))
    (hfb : ∀ k ∈ hs, ∀ c, ErrorsIn S (k.fallback c))
    (hne : S (.custom (500 + ErrorCode.notEnoughAccounts.discriminant))) (ctx : Context)
    (ix : Option MarketInstruction) : ErrorsIn S (dispatch hs ctx ix).result := by
  have hfallback : ErrorsIn S (fallback hs ctx).result := by
    rw [fallback_eq, forHooks_result, errorsIn_map]
    exact foldlM_errorsIn hfb ctx
  cases ha : ix.bind MarketInstruction.arm with
  | none => rw [dispatch_of_arm_none ha]; exact hfallback
  | some a =>
    obtain ⟨hk, n⟩ := a
    obtain ⟨mi, rfl, ha⟩ := Option.bind_eq_some.mp ha
    by_cases hl : ctx.accounts.length < n
    · rw [dispatch_of_lt ha hl]
      exact (errorsIn_error _).mpr hne
    · rw [dispatch_of_le ha (Nat.not_lt.mp hl), Traced.result_map, errorsIn_map, forHooks_result]
      exact foldlM_errorsIn hcall _

end Loops

/-- `prepare` of a chain of the crate returns only errors of `proxyErrors`. -/
theorem prepare_errorsIn (chain : List Mw) (codec : Codec) (programId : Pubkey)
    (accounts : List AccountInfo) (data : Bytes) :
    ErrorsIn (· ∈ proxyErrors)
      (MarketProxy.prepare ⟨chain.map Mw.toMiddleware⟩ codec programId accounts data).result := by
  match accounts with
  | [] => rw [prepare_nil]; exact errorsIn_panic _
  | dex :: rest =>
    by_cases hd : dex.key = serumDexProgramId
    · rw [prepare_cons _ codec programId data hd, Traced.result_bind]
      have hpre : ErrorsIn (· ∈ proxyErrors) (preParse 0 (chain.map Mw.toMiddleware) data).result :=
        preParse_errorsIn (fun mw hmw d => by
          obtain ⟨m, -, rfl⟩ := List.mem_map.mp hmw
          exact Mw.instruction_errorsIn m d) 0 data
      cases hp : (preParse 0 (chain.map Mw.toMiddleware) data).result with
      | error e => intro e' he'; cases he'; exact hpre e' hp
      | ok r =>
        obtain ⟨chain', hr, -⟩ := preParse_chain hp
        refine dispatch_errorsIn ?_ ?_ (by decide) _ _
        · intro k hk s
          rw [hr] at hk
          obtain ⟨m, -, rfl⟩ := List.mem_map.mp hk
          exact m.hooks_call_errorsIn s
        · intro k hk c
          rw [hr] at hk
          obtain ⟨m, -, rfl⟩ := List.mem_map.mp hk
          exact m.hooks_fallback_errorsIn c
    · rw [prepare_of_ne _ codec programId data hd]
      exact (errorsIn_error _).mpr (by decide)

/-- A list of calls that fails with an error failed with the error the host returned for one
of the calls it made. -/
theorem callAll_error {W : Type} (host : Host W) {l : List (Phase × Call)} {w : W}
    {e : ProgramError} (h : (callAll host l w).result = .error (.error e)) :
    ∃ ph c w', Event.call ph c ∈ (callAll host l w).events ∧ host c w' = .error e := by
  induction l generalizing w with
  | nil => cases h
  | cons q l ih =>
    obtain ⟨ph, c⟩ := q
    cases hc : host c w with
    | error e' =>
      rw [callAll_cons_error host hc] at h ⊢
      cases h
      exact ⟨ph, c, w, .head _, hc⟩
    | ok w₁ =>
      rw [callAll_cons_ok host hc] at h ⊢
      obtain ⟨ph', c', w', hm, he⟩ := ih h
      exact ⟨ph', c', w', .tail _ hm, he⟩

/-- The error surface of the proxy.  For any chain of the crate's middlewares, a run that
fails with an error (not a panic) fails with one of `proxyErrors`, or with the error the
host returned for a call the run made. -/
theorem run_errors {W : Type} (chain : List Mw) (codec : Codec) (host : Host W)
    (programId : Pubkey) (accounts : List AccountInfo) (data : Bytes) (w : W) {e : ProgramError}
    (h : (MarketProxy.run ⟨chain.map Mw.toMiddleware⟩ codec host programId accounts data w).result =
      .error (.error e)) :
    e ∈ proxyErrors ∨ ∃ ph c w', Event.call ph c ∈
      (MarketProxy.run ⟨chain.map Mw.toMiddleware⟩ codec host programId accounts data w).events ∧
        host c w' = .error e := by
  cases hp : (MarketProxy.prepare ⟨chain.map Mw.toMiddleware⟩ codec programId accounts data).result with
  | error f =>
    rw [run_of_prepare_error _ codec host programId accounts data w hp] at h
    cases h
    exact .inl (prepare_errorsIn chain codec programId accounts data e hp)
  | ok o =>
    rcases o with _ | ⟨ctx, ix⟩
    · rw [run_of_prepare_none _ codec host programId accounts data w hp] at h; cases h
    · rw [run_of_prepare_some _ codec host programId accounts data w hp] at h ⊢
      obtain ⟨ph, c, w', hm, he⟩ := callAll_error host h
      exact .inr ⟨ph, c, w', List.mem_append_right _ hm, he⟩

/-- A settle through `OpenOrdersPda` whose user (slot 2 of the working list) did not sign
fails with `UnauthorizedUser`, code 4. -/
theorem run_errors_unsigned_settle :
    (MarketProxy.run ⟨[Mw.openOrdersPda .new].map Mw.toMiddleware⟩
      ⟨fun _ => some .settleFunds, fun _ => []⟩ (fun _ (w : Unit) => .ok w) serumDexProgramId
      (⟨serumDexProgramId, false, false, serumDexProgramId, []⟩ ::
        List.replicate 10 ⟨⟨List.replicate 32 2, rfl⟩, false, true, ⟨List.replicate 32 2, rfl⟩, []⟩)
      [1] ()).result = .error (.error (.custom 4)) ∧
    (ProgramError.custom 4 ∈ proxyErrors ∨ ∃ ph c w', Event.call ph c ∈
      (MarketProxy.run ⟨[Mw.openOrdersPda .new].map Mw.toMiddleware⟩
        ⟨fun _ => some .settleFunds, fun _ => []⟩ (fun _ (w : Unit) => .ok w) serumDexProgramId
        (⟨serumDexProgramId, false, false, serumDexProgramId, []⟩ ::
          List.replicate 10 ⟨⟨List.replicate 32 2, rfl⟩, false, true, ⟨List.replicate 32 2, rfl⟩, []⟩)
        [1] ()).events ∧ (fun _ (w : Unit) => (.ok w : Except ProgramError Unit)) c w' = .error (.custom 4)) := by
  refine ⟨?h, run_errors _ _ _ _ _ _ _ ?h⟩
  case h => rfl

end PermissionedDex
