import PermissionedDex.Outcome
import PermissionedDex.Provenance

/-!
# `ReferralFees` is a gate, wherever it sits in the chain

`ReferralFees` keeps the default `instruction` hook, lets every operation but a settle
through, and on a settle only checks the token account at slot 9.  No hook of the crate
writes slot 9 of a settle (`OpenOrdersPda` rewrites slot 2), so the check sees the caller's
account whatever ran before it.  So inserting a `ReferralFees` at any position of any chain
of the crate's middlewares (`run_referral_gate`): the run succeeds exactly when the run
without it succeeds and, for a settle, the caller's account at slot 10 (slot 9 of the
working list) is a token account owned by the referral; and then both runs make the same
external calls.

* `foldlM_settle_slot9`: no hook of the crate writes slot 9 of a settle.
* `dispatch_insert_referral`, `prepare_insert_referral`: the same gate for each phase.
* `run_relay_referral`: whatever the chain and the order of its middlewares, a settle that
  reaches the DEX relay relays at slot 9 the caller's account that every referral check of
  the chain validated.
-/

namespace PermissionedDex

open Traced

/-! ## Slot 9 of a settle -/

/-- Along the hooks of a chain, a settle stays a settle and keeps slot 9: no hook of the
crate writes it (`OpenOrdersPda` rewrites slot 2). -/
theorem foldlM_settle_slot9 {l : List Mw} {ctx : Context} {r : Context × MarketInstruction}
    (h : (l.map Mw.hooks).foldlM (fun s k => k.call s) (ctx, .settleFunds) = .ok r) :
    r.1.accounts[9]? = ctx.accounts[9]? ∧ r.2 = .settleFunds :=
  have hf := foldlM_frame (by simp) h
  ⟨hf.2.2 9 (by decide) (fun _ h => nomatch h), hf.1⟩

theorem ReferralFees.hooks_call_settle_eq_ok (rf : ReferralFees) {ctx : Context}
    {r : Context × MarketInstruction} :
    rf.hooks.call (ctx, .settleFunds) = .ok r ↔
      (∃ a, ctx.accounts[9]? = some a ∧ authority a = .ok rf.referral) ∧ r = (ctx, .settleFunds) := by
  show (·, MarketInstruction.settleFunds) <$> rf.settleFunds ctx = _ ↔ _
  rw [Except.map_eq_ok]
  constructor
  · rintro ⟨c, hc, rfl⟩
    obtain ⟨a, h9, ha, rfl⟩ := rf.settleFunds_eq_ok.mp hc
    exact ⟨⟨a, h9, ha⟩, rfl⟩
  · rintro ⟨⟨a, h9, ha⟩, rfl⟩
    exact ⟨ctx, rf.settleFunds_eq_ok.mpr ⟨a, h9, ha, rfl⟩, rfl⟩

/-! ## The gate in each phase -/

/-- The dispatch, with the hooks of a `ReferralFees` inserted anywhere among the hooks of a
chain: it succeeds exactly when it does without them and, for a settle, the working list
passes the check; and then with the same result. -/
theorem dispatch_insert_referral (l₁ l₂ : List Mw) (rf : ReferralFees) (ctx : Context)
    (ix : Option MarketInstruction) (o : Option (Context × MarketInstruction)) :
    (dispatch (l₁.map Mw.hooks ++ rf.hooks :: l₂.map Mw.hooks) ctx ix).result = .ok o ↔
      (dispatch (l₁.map Mw.hooks ++ l₂.map Mw.hooks) ctx ix).result = .ok o ∧
        (ix = some .settleFunds → ∃ a, ctx.accounts[9]? = some a ∧ authority a = .ok rf.referral) := by
  cases ha : ix.bind MarketInstruction.arm with
  | none =>
    have hne : ix ≠ some .settleFunds := by rintro rfl; cases ha
    rw [dispatch_of_arm_none ha, dispatch_of_arm_none ha, fallback_result, fallback_result,
      foldlM_insert_id Hooks.fallback (fun _ => rfl)]
    exact ⟨fun h => ⟨h, fun h' => absurd h' hne⟩, fun h => h.1⟩
  | some a =>
    obtain ⟨hk, n⟩ := a
    obtain ⟨mi, rfl, ha⟩ := Option.bind_eq_some.mp ha
    by_cases hl : ctx.accounts.length < n
    · rw [dispatch_of_lt ha hl, dispatch_of_lt ha hl]
      exact ⟨(fun h => nomatch h), fun h => nomatch h.1⟩
    rw [dispatch_of_le ha (Nat.not_lt.mp hl), dispatch_of_le ha (Nat.not_lt.mp hl), result_map,
      result_map, forHooks_result, forHooks_result, List.foldlM_append, List.foldlM_append]
    cases hf : (l₁.map Mw.hooks).foldlM (fun s k => k.call s) (ctx, mi) with
    | error e => exact ⟨(fun h => nomatch h), fun h => nomatch h.1⟩
    | ok c =>
      simp only [Except.ok_bind, List.foldlM_cons]
      by_cases hs : mi = .settleFunds
      · subst hs
        obtain ⟨h9, hc2⟩ := foldlM_settle_slot9 hf
        obtain ⟨c₁, c₂⟩ := c
        cases hc2
        by_cases hchk : ∃ a, ctx.accounts[9]? = some a ∧ authority a = .ok rf.referral
        · rw [rf.hooks_call_settle_eq_ok.mpr ⟨h9 ▸ hchk, rfl⟩, Except.ok_bind]
          exact ⟨fun h => ⟨h, fun _ => hchk⟩, fun h => h.1⟩
        · cases hrf : rf.hooks.call (c₁, MarketInstruction.settleFunds) with
          | ok r => exact absurd (h9 ▸ (rf.hooks_call_settle_eq_ok.mp hrf).1) hchk
          | error e => exact ⟨(fun h => nomatch h), fun h => absurd (h.2 rfl) hchk⟩
      · have hc2 : c.2 = mi := foldlM_payload hf
        obtain ⟨c₁, c₂⟩ := c
        cases hc2
        rw [ReferralFees.hooks_call_of_ne rf c₁ hs, Except.ok_bind]
        exact ⟨fun h => ⟨h, fun h' => absurd (Option.some.inj h') hs⟩, fun h => h.1⟩

/-- `prepare`, with a `ReferralFees` inserted anywhere in a chain of the crate: it succeeds
exactly when it does without it and, for a settle, the caller's account at slot 10 passes
the check; and then with the same result. -/
theorem prepare_insert_referral (l₁ l₂ : List Mw) (rf : ReferralFees) (codec : Codec)
    (programId : Pubkey) (accounts : List AccountInfo) (data : Bytes)
    (o : Option (Context × MarketInstruction)) :
    (MarketProxy.prepare ⟨(l₁ ++ .referralFees rf :: l₂).map Mw.toMiddleware⟩ codec programId
        accounts data).result = .ok o ↔
      (MarketProxy.prepare ⟨(l₁ ++ l₂).map Mw.toMiddleware⟩ codec programId accounts data).result =
          .ok o ∧
        (MarketProxy.decode ⟨(l₁ ++ l₂).map Mw.toMiddleware⟩ codec data = some .settleFunds →
          ∃ a, accounts[10]? = some a ∧ authority a = .ok rf.referral) := by
  match accounts with
  | [] =>
    rw [prepare_nil, prepare_nil]
    exact ⟨(fun h => nomatch h), fun h => nomatch h.1⟩
  | dex :: rest =>
    by_cases hd : dex.key = serumDexProgramId
    swap
    · rw [prepare_of_ne _ codec programId data hd, prepare_of_ne _ codec programId data hd]
      exact ⟨(fun h => nomatch h), fun h => nomatch h.1⟩
    have hrf : ∀ d, (Mw.referralFees rf).toMiddleware.instruction d = .ok (d, rf.hooks) :=
      fun _ => rfl
    have hdec : MarketProxy.decode ⟨(l₁ ++ l₂).map Mw.toMiddleware⟩ codec data =
        match (preParse 0 ((l₁ ++ l₂).map Mw.toMiddleware) data).result with
        | .ok r => codec.unpack r.1
        | .error _ => none := rfl
    rw [hdec, prepare_cons _ codec programId data hd, prepare_cons _ codec programId data hd,
      result_bind, result_bind]
    dsimp only
    rw [List.map_append, List.map_cons, preParse_insert 0 _ _ data hrf, List.map_append,
      preParse_append_index]
    cases h₁ : (preParse 0 (l₁.map Mw.toMiddleware) data).result with
    | error e => exact ⟨(fun h => nomatch h), fun h => nomatch h.1⟩
    | ok r =>
      simp only [Except.ok_bind]
      cases h₂ : (preParse 0 (l₂.map Mw.toMiddleware) r.1).result with
      | error e => exact ⟨(fun h => nomatch h), fun h => nomatch h.1⟩
      | ok rs =>
        obtain ⟨l₁', hl₁, -⟩ := preParse_chain h₁
        obtain ⟨l₂', hl₂, -⟩ := preParse_chain h₂
        simp only [Except.map_ok, Except.bind_ok, hl₁, hl₂]
        have h10 : (dex :: rest)[10]? = (Context.new programId dex.key rest).accounts[9]? := by
          rw [List.getElem?_cons_succ]; rfl
        rw [h10]
        exact dispatch_insert_referral l₁' l₂' rf _ _ o

/-- `ReferralFees` is a pure gate, at any position of any chain of the crate's middlewares: the
run with it inserted succeeds exactly when the run without it succeeds and, when the data
decode to a settle, the caller's account at slot 10 is a token account owned by the
referral; and a run with it that succeeds makes the external calls of the run without it. -/
theorem run_referral_gate {W : Type} (l₁ l₂ : List Mw) (rf : ReferralFees) (codec : Codec)
    (host : Host W) (programId : Pubkey) (accounts : List AccountInfo) (data : Bytes) (w w' : W) :
    ((MarketProxy.run ⟨(l₁ ++ .referralFees rf :: l₂).map Mw.toMiddleware⟩ codec host programId
        accounts data w).result = .ok w' ↔
      (MarketProxy.run ⟨(l₁ ++ l₂).map Mw.toMiddleware⟩ codec host programId accounts data
          w).result = .ok w' ∧
        (MarketProxy.decode ⟨(l₁ ++ l₂).map Mw.toMiddleware⟩ codec data = some .settleFunds →
          ∃ a, accounts[10]? = some a ∧ authority a = .ok rf.referral)) ∧
    ((MarketProxy.run ⟨(l₁ ++ .referralFees rf :: l₂).map Mw.toMiddleware⟩ codec host programId
        accounts data w).result = .ok w' →
      (MarketProxy.run ⟨(l₁ ++ .referralFees rf :: l₂).map Mw.toMiddleware⟩ codec host programId
          accounts data w).events.filter Event.isCall =
        (MarketProxy.run ⟨(l₁ ++ l₂).map Mw.toMiddleware⟩ codec host programId accounts data
          w).events.filter Event.isCall) := by
  have hprep : ∀ (self : MarketProxy) {w'}, (self.run codec host programId accounts data w).result = .ok w' →
      ∃ o, (self.prepare codec programId accounts data).result = .ok o := by
    intro self w' h
    cases hp : (self.prepare codec programId accounts data).result with
    | error e => rw [run_of_prepare_error self codec host programId accounts data w hp] at h; cases h
    | ok o => exact ⟨o, rfl⟩
  have hsame : ∀ {o}, (MarketProxy.prepare ⟨(l₁ ++ .referralFees rf :: l₂).map Mw.toMiddleware⟩
      codec programId accounts data).result = .ok o →
      (MarketProxy.prepare ⟨(l₁ ++ .referralFees rf :: l₂).map Mw.toMiddleware⟩ codec programId
        accounts data).result =
      (MarketProxy.prepare ⟨(l₁ ++ l₂).map Mw.toMiddleware⟩ codec programId accounts data).result :=
    fun h => h.trans ((prepare_insert_referral l₁ l₂ rf codec programId accounts data _).mp h).1.symm
  refine ⟨⟨fun h => ?_, fun ⟨h, hchk⟩ => ?_⟩, fun h => ?_⟩
  · obtain ⟨o, hp⟩ := hprep _ h
    have hcond := ((prepare_insert_referral l₁ l₂ rf codec programId accounts data o).mp hp).2
    exact ⟨(run_congr_prepare codec host programId accounts data w (hsame hp)).1 ▸ h, hcond⟩
  · obtain ⟨o, hp⟩ := hprep _ h
    have hp₁ := (prepare_insert_referral l₁ l₂ rf codec programId accounts data o).mpr ⟨hp, hchk⟩
    exact (run_congr_prepare codec host programId accounts data w (hsame hp₁)).1.trans h
  · obtain ⟨o, hp⟩ := hprep _ h
    exact (run_congr_prepare codec host programId accounts data w (hsame hp)).2

/-! ## The account the relay passes at slot 9 -/

/-- Whatever the chain and its order: when a settle-funds run reaches the DEX relay, the
account the relay passes at slot 9 is the caller's account at slot 9 of the working list,
and its token owner is the referral of every `ReferralFees` of the chain. -/
theorem run_relay_referral {W : Type} {chain : List Mw} {rf : ReferralFees}
    (hrf : .referralFees rf ∈ chain) (codec : Codec) (host : Host W) (programId : Pubkey)
    (accounts : List AccountInfo) (data : Bytes) (w : W)
    (hs : MarketProxy.decode ⟨chain.map Mw.toMiddleware⟩ codec data = some .settleFunds)
    {ix : Instruction} {accs : List AccountInfo} {seeds : Seeds}
    (h : Event.call .relay (.invokeSigned ix accs seeds) ∈
      (MarketProxy.run ⟨chain.map Mw.toMiddleware⟩ codec host programId accounts data w).events) :
    ∃ a, accounts[10]? = some a ∧ accs[9]? = some a ∧ authority a = .ok rf.referral := by
  obtain ⟨ctx, mi, hp, hc⟩ := run_relay _ codec host programId accounts data w h
  cases hc
  obtain ⟨dex, rest, d, hks, mi, -, -, rfl, -, hd, hu, -, -, hf⟩ := prepare_ok_some _ _ _ _ hp
  rw [MarketProxy.decode_of_preParse hd, hu, Option.some.injEq] at hs
  subst hs
  obtain ⟨chain', rfl, -, -, hkept⟩ := preParse_chain hd
  -- the referral check of `rf` saw the caller's slot 9
  obtain ⟨⟨c, _⟩, t', ⟨rfl, hfr⟩, hcheck⟩ := foldlM_each Hooks.call _
    (Mw.frame_step (by simp : MarketInstruction.settleFunds ≠ .initOpenOrders) rest) hf
    ⟨rfl, .refl _ _⟩ rf.hooks
    (List.mem_map_of_mem _ (hkept _ hrf rfl))
  obtain ⟨⟨a, ha, hauth⟩, -⟩ := rf.hooks_call_settle_eq_ok.mp hcheck
  have hr9 : rest[9]? = some a := (hfr.2 9 (by decide) fun _ h => nomatch h).symm.trans ha
  exact ⟨a, by rw [List.getElem?_cons_succ, hr9], (foldlM_settle_slot9 hf).1.trans hr9, hauth⟩

/-- A settle of the sample accounts through one referral check of `keyOf 0`, the owner of
every sample token account: the run reaches the relay, which passes the caller's account at
slot 10 (key 10) at slot 9. -/
theorem run_relay_referral_single :
    Mw.referralFees ⟨keyOf 0⟩ ∈ [Mw.referralFees ⟨keyOf 0⟩] ∧
    MarketProxy.decode ⟨[Mw.referralFees ⟨keyOf 0⟩].map Mw.toMiddleware⟩ sampleCodec
      [0, 5, 0, 0, 0] = some .settleFunds ∧
    Event.call .relay (.invokeSigned
        (relayInstruction (callerAccounts 2 (List.range' 1 10)) [0, 5, 0, 0, 0])
        (callerAccounts 2 (List.range' 1 10)) []) ∈
      (MarketProxy.run ⟨[Mw.referralFees ⟨keyOf 0⟩].map Mw.toMiddleware⟩ sampleCodec
        (fun _ (w : Unit) => .ok w) serumDexProgramId (dexAccount :: callerAccounts 2 (List.range' 1 10))
        [0, 5, 0, 0, 0] ()).events ∧
    ∃ a, (dexAccount :: callerAccounts 2 (List.range' 1 10))[10]? = some a ∧
      (callerAccounts 2 (List.range' 1 10))[9]? = some a ∧
      authority a = .ok (ReferralFees.referral ⟨keyOf 0⟩) :=
  have hrf : Mw.referralFees _ ∈ _ := List.mem_singleton_self _
  have hs : MarketProxy.decode _ _ _ = _ := by decide!
  have h : Event.call .relay _ ∈ _ := by decide!
  ⟨hrf, hs, h, run_relay_referral hrf _ _ _ _ _ _ hs h⟩

end PermissionedDex
