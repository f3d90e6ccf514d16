import PermissionedDex.Chain

/-!
# Out-of-range reads: the instruction data and the account lists

`run` indexes the caller's accounts and the instruction data without checking their
lengths first, and Rust aborts the program on an index out of bounds:

* `run` reads `accounts[0]` before anything else, so an empty account list aborts;
* `OpenOrdersPda::instruction` reads `data[0]`, and `data[1]` and `data[2]` after a zero
  discriminant, so a buffer `[]`, `[0]` or `[0, b]` aborts the pre-parse
  (`run_preParse_short_data`);
* the count check of the init arm asks for 4 working accounts, but `init_open_orders` reads
  slot 4 before `validate_init_accounts` checks the length, so an init with 4 working
  accounts aborts (`run_account_bounds`).

For every other operation the count check covers every slot the hooks of the crate read or
write, so no hook indexes the working list out of bounds (`run_account_bounds`).
-/

namespace PermissionedDex

/-! ## The pre-parse of `OpenOrdersPda` -/

/-- What `OpenOrdersPda::instruction` consumes: the discriminant, and the two bump bytes
after a zero discriminant, which it stores. -/
theorem OpenOrdersPda.instruction_eq_ok_iff (self : OpenOrdersPda) {data d : Bytes}
    {p' : OpenOrdersPda} :
    self.instruction data = .ok (p', d) ↔
      (∃ x, x ≠ 0 ∧ data = x :: d ∧ p' = self) ∨
      (∃ b bi, data = 0 :: b :: bi :: d ∧ p' = { self with bump := b, bumpInit := bi }) := by
  constructor
  · intro h
    match data, h with
    | x :: rest, h =>
      by_cases hx : x = 0
      · subst hx
        match rest, h with
        | b :: bi :: rest, h =>
          rw [instruction_init, Except.ok.injEq, Prod.mk.injEq] at h
          exact .inr ⟨b, bi, by rw [h.2], h.1.symm⟩
      · rw [instruction_of_ne self hx, Except.ok.injEq, Prod.mk.injEq] at h
        exact .inl ⟨x, hx, by rw [h.2], h.1.symm⟩
  · rintro (⟨x, hx, rfl, rfl⟩ | ⟨b, bi, rfl, rfl⟩)
    · exact instruction_of_ne _ hx d
    · exact instruction_init _ b bi d

/-- The pre-parse of a chain with one `OpenOrdersPda` among loggers and referral checks: that
middleware's `instruction` hook on the raw data. -/
theorem preParse_single_pda_ok {pre post : List Mw} (hpre : ∀ m ∈ pre, m.isPda = false)
    (hpost : ∀ m ∈ post, m.isPda = false) {p p' : OpenOrdersPda} {data d : Bytes}
    (h : p.instruction data = .ok (p', d)) :
    (preParse 0 ((pre ++ .openOrdersPda p :: post).map Mw.toMiddleware) data).result =
      .ok (d, pre.map Mw.hooks ++ p'.hooks :: post.map Mw.hooks) := by
  have hm : (Mw.openOrdersPda p).toMiddleware.instruction data = .ok (d, p'.hooks) := by
    simp [Mw.toMiddleware, Mw.instruction, h]; rfl
  rw [List.map_append, preParse_append, preParse_pda_free hpre, Except.ok_bind, List.map_cons,
    preParse_result_cons_ok hm, preParse_pda_free hpost]
  rfl

/-- `OpenOrdersPda::instruction` consumes the discriminant, and the two bump bytes after a zero
discriminant, and the decoder sees exactly the rest of the data; but on a buffer too short
for the bytes it reads (`[]`, `[0]`, `[0, b]`) the run aborts in the pre-parse, after the
`instruction` hooks of the middlewares before it, instead of reaching the fallback hooks or
returning an error. -/
theorem run_preParse_short_data :
    -- what the hook consumes
    (∀ (self p' : OpenOrdersPda) (data d : Bytes), self.instruction data = .ok (p', d) ↔
      (∃ x, x ≠ 0 ∧ data = x :: d ∧ p' = self) ∨
      (∃ b bi, data = 0 :: b :: bi :: d ∧ p' = { self with bump := b, bumpInit := bi })) ∧
    -- the decoder sees the rest
    (∀ (pre post : List Mw), (∀ m ∈ pre, m.isPda = false) → (∀ m ∈ post, m.isPda = false) →
      ∀ (p p' : OpenOrdersPda) (codec : Codec) (data d : Bytes), p.instruction data = .ok (p', d) →
      MarketProxy.decode ⟨(pre ++ .openOrdersPda p :: post).map Mw.toMiddleware⟩ codec data =
        codec.unpack d) ∧
    -- a buffer too short aborts
    (∀ {W : Type} (pre post : List Mw), (∀ m ∈ pre, m.isPda = false) →
      ∀ (p : OpenOrdersPda) (codec : Codec) (host : Host W) (programId : Pubkey)
        (dex : AccountInfo) (rest : List AccountInfo) (w : W) (data : Bytes),
      dex.key = serumDexProgramId → (data = [] ∨ data = [0] ∨ ∃ b, data = [0, b]) →
      MarketProxy.run ⟨(pre ++ .openOrdersPda p :: post).map Mw.toMiddleware⟩ codec host
          programId (dex :: rest) data w =
        ⟨(List.range' 0 (pre.length + 1)).map .instruction, .error (.panic .indexOutOfBounds)⟩) := by
  refine ⟨fun self p' data d => self.instruction_eq_ok_iff, fun pre post hpre hpost p p' codec data d h =>
    MarketProxy.decode_of_preParse (preParse_single_pda_ok hpre hpost h),
    fun pre post hpre p codec host programId dex rest w data hd hdata => ?_⟩
  have hshort : p.instruction data = .error (.panic .indexOutOfBounds) := by
    rcases hdata with rfl | rfl | ⟨b, rfl⟩ <;> simp
  have hm : (Mw.openOrdersPda p).toMiddleware.instruction data = .error (.panic .indexOutOfBounds) := by
    simp [Mw.toMiddleware, Mw.instruction, hshort]
  have htake : ((pre ++ .openOrdersPda p :: post).map Mw.toMiddleware).take pre.length =
      pre.map Mw.toMiddleware := by
    rw [List.map_append, List.take_append_of_le_length (by simp), List.take_of_length_le (by simp)]
  have hk : (preParse 0 (((pre ++ .openOrdersPda p :: post).map Mw.toMiddleware).take pre.length)
      data).result = .ok (data, pre.map Mw.hooks) := by
    rw [htake]; exact preParse_pda_free hpre 0 data
  have hat : ((pre ++ .openOrdersPda p :: post).map Mw.toMiddleware)[pre.length]? =
      some (Mw.openOrdersPda p).toMiddleware := by
    rw [List.map_append, List.map_cons, List.getElem?_append_right (by simp)]
    simp
  exact run_of_instruction_fails _ codec host programId data w hd hk hat hm

/-- The failing inputs of the short data: through `OpenOrdersPda` alone over the DEX account
only, the data `[]`, `[0]` and `[0, 7]` make the run abort in the pre-parse, after the one
`instruction` hook, with an index out of bounds. -/
theorem run_preParse_short_data_dex :
    dexAccount.key = serumDexProgramId ∧
    MarketProxy.run ⟨([] ++ Mw.openOrdersPda .new :: []).map Mw.toMiddleware⟩ sampleCodec
        (fun _ (w : Unit) => .ok w) serumDexProgramId [dexAccount] [] () =
      ⟨[.instruction 0], .error (.panic .indexOutOfBounds)⟩ ∧
    MarketProxy.run ⟨([] ++ Mw.openOrdersPda .new :: []).map Mw.toMiddleware⟩ sampleCodec
        (fun _ (w : Unit) => .ok w) serumDexProgramId [dexAccount] [0] () =
      ⟨[.instruction 0], .error (.panic .indexOutOfBounds)⟩ ∧
    MarketProxy.run ⟨([] ++ Mw.openOrdersPda .new :: []).map Mw.toMiddleware⟩ sampleCodec
        (fun _ (w : Unit) => .ok w) serumDexProgramId [dexAccount] [0, 7] () =
      ⟨[.instruction 0], .error (.panic .indexOutOfBounds)⟩ :=
  have hd : dexAccount.key = serumDexProgramId := rfl
  ⟨hd, run_preParse_short_data.2.2 [] [] (by simp) _ _ _ _ _ [] _ _ hd (.inl rfl),
    run_preParse_short_data.2.2 [] [] (by simp) _ _ _ _ _ [] _ _ hd (.inr (.inl rfl)),
    run_preParse_short_data.2.2 [] [] (by simp) _ _ _ _ _ [] _ _ hd (.inr (.inr ⟨7, rfl⟩))⟩

/-! ## Account lists -/

section Accounts

variable {α β : Type}

theorem bind_ne_index {x : Except Fault α} {f : α → Except Fault β}
    (hx : x ≠ .error (.panic .indexOutOfBounds))
    (hf : ∀ a, x = .ok a → f a ≠ .error (.panic .indexOutOfBounds)) :
    x >>= f ≠ .error (.panic .indexOutOfBounds) := by
  cases x with
  | error e => intro h; cases h; exact hx rfl
  | ok a => exact hf a rfl

theorem map_ne_index {x : Except Fault α} {f : α → β} (hx : x ≠ .error (.panic .indexOutOfBounds)) :
    f <$> x ≠ .error (.panic .indexOutOfBounds) := by
  cases x with
  | error e => intro h; exact hx (by cases h; rfl)
  | ok a => intro h; cases h

theorem require_ne_index {c : Prop} [Decidable c] {e : ProgramError} :
    require c (.error e) ≠ .error (.panic .indexOutOfBounds) := by
  unfold require; split <;> (intro h; cases h)

theorem slice_ne_index (v : List α) (lo hi : Nat) : slice v lo hi ≠ .error (.panic .indexOutOfBounds) := by
  unfold slice; split <;> (intro h; cases h)

theorem unwrap_ne_index (o : Option α) : unwrap o ≠ .error (.panic .indexOutOfBounds) := by
  cases o <;> (intro h; cases h)

end Accounts

namespace OpenOrdersPda

variable (self : OpenOrdersPda) {ctx : Context}

/-- With five working accounts or fewer, `init_open_orders` reads the market at slot 4 out of
bounds. -/
theorem initOpenOrders_of_short (h : ctx.accounts.length ≤ 4) :
    self.initOpenOrders ctx = .error (.panic .indexOutOfBounds) := by
  simp only [initOpenOrders, index_eq_error h]; rfl

theorem approveAmount_ne_index (ix : NewOrderInstructionV3) (market : AccountInfo) :
    approveAmount ix market ≠ .error (.panic .indexOutOfBounds) := by
  unfold approveAmount
  split
  · intro h; cases h
  · exact bind_ne_index (slice_ne_index _ _ _) fun _ _ => unwrap_ne_index _

theorem signAsPda_ne_index {m u p : Nat} (hm : m < ctx.accounts.length) (hu : u < ctx.accounts.length)
    (hp : p < ctx.accounts.length) : self.signAsPda m u p ctx ≠ .error (.panic .indexOutOfBounds) := by
  unfold signAsPda
  rw [index_ok hm, index_ok hu, Except.ok_bind, Except.ok_bind]
  refine bind_ne_index require_ne_index fun _ _ => ?_
  simp only [pushSeeds, index_ok hp, setAt_ok _ hu, Except.ok_bind]
  intro h; cases h

theorem newOrderV3_ne_index (ix : NewOrderInstructionV3) (h : 12 ≤ ctx.accounts.length) :
    self.newOrderV3 ctx ix ≠ .error (.panic .indexOutOfBounds) := by
  unfold newOrderV3
  rw [index_ok (by omega : 7 < ctx.accounts.length), Except.ok_bind]
  refine bind_ne_index require_ne_index fun _ _ => ?_
  rw [index_ok (by omega : 0 < ctx.accounts.length), index_ok (by omega : 1 < ctx.accounts.length),
    index_ok (by omega : 6 < ctx.accounts.length), Except.ok_bind, Except.ok_bind, Except.ok_bind]
  refine bind_ne_index (approveAmount_ne_index ix _) fun _ _ => ?_
  simp only [approve_splTokenId, revoke_splTokenId, liftErr, Except.mapError, Except.ok_bind,
    pushSeeds, List.length_set, setAt_ok _ (by omega : 7 < ctx.accounts.length)]
  intro h; cases h

theorem prune_ne_index (l : UInt16) (h : 7 ≤ ctx.accounts.length) :
    prune ctx l ≠ .error (.panic .indexOutOfBounds) := by
  unfold prune
  rw [index_ok (by omega : 4 < ctx.accounts.length), Except.ok_bind,
    setAt_ok _ (by omega : 5 < ctx.accounts.length), Except.ok_bind]
  intro h; cases h

end OpenOrdersPda

theorem ReferralFees.settleFunds_ne_index (rf : ReferralFees) {ctx : Context}
    (h : 10 ≤ ctx.accounts.length) : rf.settleFunds ctx ≠ .error (.panic .indexOutOfBounds) := by
  unfold settleFunds
  rw [index_ok (by omega : 9 < ctx.accounts.length), Except.ok_bind]
  refine bind_ne_index (by unfold authority; split <;> (intro h; cases h)) fun _ _ => ?_
  exact bind_ne_index require_ne_index fun _ _ => by intro h; cases h

/-- Past the count check of its arm, no hook of the crate for an operation other than an
init indexes the working list out of bounds. -/
theorem Mw.hooks_call_ne_index (m : Mw) {ctx : Context} {mi : MarketInstruction} {hk : Hook}
    {n : Nat} (hmi : mi ≠ .initOpenOrders) (ha : mi.arm = some (hk, n))
    (hn : n ≤ ctx.accounts.length) : m.hooks.call (ctx, mi) ≠ .error (.panic .indexOutOfBounds) := by
  match m with
  | .logger => rw [hooks, Logger.hooks, Hooks.call_default]; intro h; cases h
  | .referralFees rf =>
    by_cases hs : mi = .settleFunds
    · subst hs
      cases ha
      exact map_ne_index (rf.settleFunds_ne_index hn)
    · rw [hooks, ReferralFees.hooks_call_of_ne rf ctx hs]; intro h; cases h
  | .openOrdersPda p =>
    cases mi <;> simp only [MarketInstruction.arm, Option.some.injEq, Prod.mk.injEq,
      reduceCtorEq] at ha
    case initOpenOrders => exact absurd rfl hmi
    case newOrderV3 ix => exact map_ne_index (p.newOrderV3_ne_index ix (ha.2 ▸ hn))
    case cancelOrderV2 ix =>
      exact map_ne_index (map_ne_index (p.signAsPda_ne_index (by omega) (by omega) (by omega)))
    case cancelOrderByClientIdV2 c =>
      exact map_ne_index (map_ne_index (p.signAsPda_ne_index (by omega) (by omega) (by omega)))
    case settleFunds => exact map_ne_index (p.signAsPda_ne_index (by omega) (by omega) (by omega))
    case closeOpenOrders => exact map_ne_index (p.signAsPda_ne_index (by omega) (by omega) (by omega))
    case prune l => exact map_ne_index (OpenOrdersPda.prune_ne_index l (ha.2 ▸ hn))
    case consumeEvents l => intro h; cases h
    case consumeEventsPermissioned l => intro h; cases h

/-- The hooks of the crate keep the length of the working list, except an init. -/
theorem Mw.hooks_call_length (m : Mw) {ctx : Context} {mi : MarketInstruction}
    {r : Context × MarketInstruction} (hmi : mi ≠ .initOpenOrders) (h : m.hooks.call (ctx, mi) = .ok r) :
    r.1.accounts.length = ctx.accounts.length := by
  cases hm : m.isPda with
  | false => rw [hooks_call_of_not_pda hm h]
  | true =>
    match m, hm with
    | .openOrdersPda p, _ =>
      rcases p.hooks_call_cases ctx h with ⟨_, _, _, c, -, hc, rfl⟩ | ⟨c, rfl, -, -⟩ |
        ⟨ix, c, rfl, hc, rfl⟩ | ⟨l, c, rfl, hc, rfl⟩ | ⟨-, rfl⟩
      · obtain ⟨_, _, _, -, -, -, -, -, rfl⟩ := p.signAsPda_ok hc
        exact List.length_set _ _ _
      · exact absurd rfl hmi
      · obtain ⟨_, _, _, _, _, -, -, -, -, -, -, -, rfl⟩ := p.newOrderV3_ok hc
        exact List.length_set _ _ _
      · obtain ⟨_, -, -, -, rfl⟩ := OpenOrdersPda.prune_ok hc
        exact List.length_set _ _ _
      · rfl

/-- A fold of hooks never ends in `e` when every hook, from a state of the invariant, does not
fail with `e` and keeps the invariant. -/
theorem foldlM_ne_error {σ : Type} (f : Hooks → σ → Except Fault σ) (P : σ → Prop) {e : Fault}
    {hs : List Hooks} (step : ∀ h ∈ hs, ∀ s, P s → f h s ≠ .error e ∧ ∀ s', f h s = .ok s' → P s') :
    ∀ s, P s → hs.foldlM (fun s h => f h s) s ≠ .error e := by
  induction hs with
  | nil => intro s _ h; cases h
  | cons h hs ih =>
    intro s hp
    obtain ⟨hne, hok⟩ := step h (.head _) s hp
    rw [List.foldlM_cons]
    cases hh : f h s with
    | error e' => intro h'; cases h'; exact hne hh
    | ok s' => exact ih (fun h' m => step h' (.tail _ m)) s' (hok s' hh)

/-- The external calls fail with the errors the host returns, never with a panic. -/
theorem callAll_result_ne_panic {W : Type} (host : Host W) (l : List (Phase × Call)) (w : W)
    (p : Panic) : (callAll host l w).result ≠ .error (.panic p) := by
  induction l generalizing w with
  | nil => intro h; cases h
  | cons q l ih =>
    obtain ⟨ph, c⟩ := q
    cases hc : host c w with
    | error e => rw [callAll_cons_error host hc]; intro h; cases h
    | ok w' => rw [callAll_cons_ok host hc]; exact ih w'

/-- The external calls of a run never panic: a run panics only where its `prepare` does. -/
theorem run_ne_panic_of_prepare {W : Type} (self : MarketProxy) (codec : Codec) (host : Host W)
    (programId : Pubkey) (accounts : List AccountInfo) (data : Bytes) (w : W) {p : Panic}
    (h : (self.prepare codec programId accounts data).result ≠ .error (.panic p)) :
    (self.run codec host programId accounts data w).result ≠ .error (.panic p) := by
  cases hp : (self.prepare codec programId accounts data).result with
  | error e =>
    rw [run_of_prepare_error self codec host programId accounts data w hp]
    rw [hp] at h
    intro h'; cases h'; exact h rfl
  | ok o =>
    rcases o with _ | ⟨ctx, ix⟩
    · rw [run_of_prepare_none self codec host programId accounts data w hp]; intro h; cases h
    · rw [run_of_prepare_some self codec host programId accounts data w hp]
      exact callAll_result_ne_panic host _ w p

theorem foldlM_pda_free_of_ne {l : List Mw} (h : ∀ m ∈ l, m.isPda = false) {mi : MarketInstruction}
    (hmi : mi ≠ .settleFunds) (ctx : Context) :
    (l.map Mw.hooks).foldlM (fun s h => h.call s) (ctx, mi) = .ok (ctx, mi) := by
  induction l with
  | nil => rfl
  | cons m l ih =>
    have hm : m.hooks.call (ctx, mi) = .ok (ctx, mi) := by
      match m, h m (.head _) with
      | .logger, _ => exact Hooks.call_default _
      | .referralFees rf, _ => exact ReferralFees.hooks_call_of_ne rf ctx hmi
    rw [List.map_cons, List.foldlM_cons, hm]
    exact ih fun m' h' => h m' (.tail _ h')

/-- The accounts of a run.  `run` reads `accounts[0]` before any check, so an empty account
list aborts; the count check of an init, 4 working accounts, is below the slot 4 that
`init_open_orders` reads, so an init with 4 working accounts through a chain with
`OpenOrdersPda` aborts; for every other operation, once the count check passed, no hook of
any chain of the crate indexes the working list out of bounds. -/
theorem run_account_bounds :
    -- an empty account list
    (∀ {W : Type} (self : MarketProxy) (codec : Codec) (host : Host W) (programId : Pubkey)
      (data : Bytes) (w : W),
      self.run codec host programId [] data w = ⟨[], .error (.panic .indexOutOfBounds)⟩) ∧
    -- an init with 4 working accounts
    (∀ {W : Type} (pre post : List Mw), (∀ m ∈ pre, m.isPda = false) →
      (∀ m ∈ post, m.isPda = false) → ∀ (p : OpenOrdersPda) (codec : Codec) (host : Host W)
        (programId : Pubkey) (dex : AccountInfo) (rest : List AccountInfo) (data : Bytes) (w : W),
      dex.key = serumDexProgramId →
      MarketProxy.decode ⟨(pre ++ .openOrdersPda p :: post).map Mw.toMiddleware⟩ codec data =
        some .initOpenOrders →
      rest.length = 4 →
      (MarketProxy.run ⟨(pre ++ .openOrdersPda p :: post).map Mw.toMiddleware⟩ codec host
        programId (dex :: rest) data w).result = .error (.panic .indexOutOfBounds)) ∧
    -- every other operation past its count check
    (∀ {W : Type} (chain : List Mw) (codec : Codec) (host : Host W) (programId : Pubkey)
      (dex : AccountInfo) (rest : List AccountInfo) (data : Bytes) (w : W) (mi : MarketInstruction)
      (hk : Hook) (n : Nat),
      MarketProxy.decode ⟨chain.map Mw.toMiddleware⟩ codec data = some mi →
      mi ≠ .initOpenOrders → mi.arm = some (hk, n) → n ≤ rest.length →
      (MarketProxy.run ⟨chain.map Mw.toMiddleware⟩ codec host programId (dex :: rest) data
        w).result ≠ .error (.panic .indexOutOfBounds)) := by
  refine ⟨fun self codec host programId data w => ?_,
    fun pre post hpre hpost p codec host programId dex rest data w hd hdec hlen => ?_,
    fun chain codec host programId dex rest data w mi hk n hdec hmi ha hn => ?_⟩
  · have hp : (self.prepare codec programId [] data).result = .error (.panic .indexOutOfBounds) := by
      rw [prepare_nil]
    rw [run_of_prepare_error self codec host programId [] data w hp, prepare_nil]
  · obtain ⟨d, hs, hp, hu⟩ := MarketProxy.decode_eq_some hdec
    obtain ⟨p', -, rfl⟩ := preParse_single_pda hpre hpost hp
    have hk : ((pre.map Mw.hooks ++ p'.hooks :: post.map Mw.hooks).take pre.length).foldlM
        (fun s h => h.call s) (Context.new programId dex.key rest, .initOpenOrders) =
          .ok (Context.new programId dex.key rest, .initOpenOrders) := by
      rw [List.take_append_of_le_length (by simp), List.take_of_length_le (by simp)]
      exact foldlM_pda_free_of_ne hpre (by decide) _
    have hh : (pre.map Mw.hooks ++ p'.hooks :: post.map Mw.hooks)[pre.length]? = some p'.hooks := by
      rw [List.getElem?_append_right (by simp)]; simp
    have he : p'.hooks.call (Context.new programId dex.key rest, .initOpenOrders) =
        .error (.panic .indexOutOfBounds) := by
      show (·, MarketInstruction.initOpenOrders) <$> p'.initOpenOrders _ = _
      rw [p'.initOpenOrders_of_short (by simp [Context.new, hlen])]; rfl
    rw [run_of_hook_fails _ codec host programId data w hd hp hu rfl (by rw [hlen]) hk hh he]
  · refine run_ne_panic_of_prepare _ codec host programId _ data w ?_
    by_cases hd : dex.key = serumDexProgramId
    · obtain ⟨d, hs, hp, hu⟩ := MarketProxy.decode_eq_some hdec
      obtain ⟨chain', rfl, -⟩ := preParse_chain hp
      have hfold : (chain'.map Mw.hooks).foldlM (fun s h => h.call s)
          (Context.new programId dex.key rest, mi) ≠ .error (.panic .indexOutOfBounds) := by
        refine foldlM_ne_error Hooks.call (fun s => s.2 = mi ∧ n ≤ s.1.accounts.length) ?_ _ ⟨rfl, hn⟩
        rintro k hk' ⟨c, _⟩ ⟨rfl, hlen⟩
        obtain ⟨m, -, rfl⟩ := List.mem_map.mp hk'
        exact ⟨m.hooks_call_ne_index hmi ha hlen, fun s' hc =>
          ⟨m.hooks_call_payload hc, (m.hooks_call_length hmi hc).symm ▸ hlen⟩⟩
      rw [prepare_of_preParse_ok _ codec programId data hd hp, hu,
        dispatch_of_le ha (by simpa [Context.new] using hn), Traced.result_map, forHooks_result]
      exact map_ne_index hfold
    · rw [prepare_of_ne _ codec programId data hd]
      intro h; cases h

/-- The failing inputs of the account bounds: an empty account list, and an init with bumps 255
and 254 and the packed `InitOpenOrders` through `OpenOrdersPda` alone over the DEX account and
four sample accounts, the owner signing at slot 3.  Both runs abort with an index out of
bounds. -/
theorem run_account_bounds_init_four :
    MarketProxy.run ⟨([] ++ Mw.openOrdersPda .new :: []).map Mw.toMiddleware⟩ sampleCodec
        (fun _ (w : Unit) => .ok w) serumDexProgramId [] [0, 255, 254, 0, 15, 0, 0, 0] () =
      ⟨[], .error (.panic .indexOutOfBounds)⟩ ∧
    dexAccount.key = serumDexProgramId ∧
    MarketProxy.decode ⟨([] ++ Mw.openOrdersPda .new :: []).map Mw.toMiddleware⟩ sampleCodec
      [0, 255, 254, 0, 15, 0, 0, 0] = some .initOpenOrders ∧
    (callerAccounts 3 [1, 2, 3, 4]).length = 4 ∧
    (MarketProxy.run ⟨([] ++ Mw.openOrdersPda .new :: []).map Mw.toMiddleware⟩ sampleCodec
        (fun _ (w : Unit) => .ok w) serumDexProgramId (dexAccount :: callerAccounts 3 [1, 2, 3, 4])
        [0, 255, 254, 0, 15, 0, 0, 0] ()).result = .error (.panic .indexOutOfBounds) := by
  refine ⟨run_account_bounds.1 _ _ _ _ _ _, ?hd, ?hdec, ?hlen,
    run_account_bounds.2.1 [] [] (by simp) (by simp) _ _ _ _ _ _ _ _ ?hd ?hdec ?hlen⟩
  case hd => rfl
  case hdec => decide!
  case hlen => rfl

end PermissionedDex
