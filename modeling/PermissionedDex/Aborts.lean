import PermissionedDex.Bounds
import PermissionedDex.Provenance

/-!
# The aborts of a run

A Rust program aborts on an index or a slice out of range and on `unwrap` of `None`.
`PanicsIn P x`: every abort of `x` satisfies `P`.  As `ErrorsIn` does for the errors, it goes
through the do-blocks of the source with one simp lemma per operation; each hook gets the
aborts of its own text under the count check of its arm (`OpenOrdersPda.newOrderV3_panicsIn`,
…), and the loops of `run` collect them (`preParse_panicsIn`, `foldlM_panicsIn`).

* `run_panics`: for any chain of the crate's middlewares, a run aborts only
  - with an index out of bounds: at `accounts[0]` of an empty account list; at `data[0]`,
    `data[1]` or `data[2]` when the data have fewer than three bytes for each
    `OpenOrdersPda` of the chain; in an init, whose hook reads slots 3 and 4 before
    `validate_init_accounts` checks the length;
  - in `approve_amount` of a new order, on the market account at slot 0 (the slice
    `market.data[349..357]`, the `unwrap` of `checked_mul`);
  - with a slice out of range in `token::accessor::authority` of a settle through a
    `ReferralFees`, when the account at slot 9 holds fewer than 64 bytes.

  Every other operation, once its count check passed, ends in an error or reaches its
  calls, and the calls never abort (`callAll_result_ne_panic`): a `Host` returns a
  `ProgramError` or a new state, so an abort inside a callee is outside the model.
-/

namespace PermissionedDex

/-- Every abort of `x` satisfies `P`; errors are not aborts. -/
def PanicsIn {α : Type} (P : Panic → Prop) (x : Except Fault α) : Prop :=
  ∀ p, x = .error (.panic p) → P p

section PanicsIn

variable {α β : Type} {P Q : Panic → Prop}

theorem PanicsIn.mono {x : Except Fault α} (h : PanicsIn P x) (hPQ : ∀ p, P p → Q p) :
    PanicsIn Q x :=
  fun p hp => hPQ p (h p hp)

/-- The aborts of `x` are the aborts of `x`: a step whose aborts are passed on as they are. -/
@[simp] theorem panicsIn_self (x : Except Fault α) : PanicsIn (fun p => x = .error (.panic p)) x :=
  fun _ h => h

@[simp] theorem panicsIn_ok (a : α) : PanicsIn P (.ok a : Except Fault α) := fun _ h => nomatch h

@[simp] theorem panicsIn_error (e : ProgramError) : PanicsIn P (.error (.error e) : Except Fault α) :=
  fun _ h => nomatch h

@[simp] theorem panicsIn_panic (p : Panic) : PanicsIn P (.error (.panic p) : Except Fault α) ↔ P p :=
  ⟨fun h => h p rfl, fun h _ hp => by cases hp; exact h⟩

@[simp] theorem panicsIn_pure (a : α) : PanicsIn P (pure a : Except Fault α) := panicsIn_ok a

@[simp] theorem panicsIn_bind {x : Except Fault α} {f : α → Except Fault β} :
    PanicsIn P (x >>= f) ↔ PanicsIn P x ∧ ∀ a, x = .ok a → PanicsIn P (f a) := by
  cases x with
  | error e => cases e <;> simp [bind, Except.bind]
  | ok a => simp [bind, Except.bind]

@[simp] theorem panicsIn_map {x : Except Fault α} {f : α → β} : PanicsIn P (f <$> x) ↔ PanicsIn P x := by
  cases x with
  | error e => cases e <;> simp [Functor.map, Except.map]
  | ok a => simp [Functor.map, Except.map]

@[simp] theorem panicsIn_ite {c : Prop} [Decidable c] {x y : Except Fault α} :
    PanicsIn P (if c then x else y) ↔ (c → PanicsIn P x) ∧ (¬c → PanicsIn P y) := by
  split <;> simp_all

@[simp] theorem panicsIn_require {c : Prop} [Decidable c] {e : ProgramError} :
    PanicsIn P (require c (.error e)) := by
  unfold require; split <;> simp

@[simp] theorem panicsIn_liftErr (x : Except ProgramError α) : PanicsIn P (liftErr x) := by
  cases x <;> simp [liftErr, Except.mapError]

@[simp] theorem panicsIn_index (v : List α) (i : Nat) :
    PanicsIn P (index v i) ↔ (v.length ≤ i → P .indexOutOfBounds) := by
  by_cases h : v.length ≤ i
  · simp [index_eq_error h, h]
  · simp [index_ok (Nat.lt_of_not_le h), h]

@[simp] theorem panicsIn_sliceFrom (v : List α) (lo : Nat) :
    PanicsIn P (sliceFrom v lo) ↔ (v.length < lo → P .sliceOutOfRange) := by
  by_cases h : lo ≤ v.length
  · simp [sliceFrom_ok h, Nat.not_lt.mpr h]
  · simp [sliceFrom, h, Nat.lt_of_not_le h]

@[simp] theorem panicsIn_slice (v : List α) (lo hi : Nat) :
    PanicsIn P (slice v lo hi) ↔ (¬(lo ≤ hi ∧ hi ≤ v.length) → P .sliceOutOfRange) := by
  unfold slice; split <;> simp_all

@[simp] theorem panicsIn_setAt (v : List α) (i : Nat) (a : α) :
    PanicsIn P (setAt v i a) ↔ (v.length ≤ i → P .indexOutOfBounds) := by
  by_cases h : v.length ≤ i
  · simp [setAt, h]
  · simp [setAt_ok a (Nat.lt_of_not_le h), h]

@[simp] theorem panicsIn_unwrap (o : Option α) : PanicsIn P (unwrap o) ↔ (o = none → P .unwrapNone) := by
  cases o <;> simp [unwrap]

@[simp] theorem panicsIn_authority (a : AccountInfo) :
    PanicsIn P (authority a) ↔ (a.data.length < 64 → P .sliceOutOfRange) := by
  by_cases h : 64 ≤ a.data.length
  · simp [authority, h, Nat.not_lt.mpr h]
  · simp [authority, h, Nat.lt_of_not_le h]

/-- A fold of hooks aborts only as its hooks do from the states of an invariant they keep. -/
theorem foldlM_panicsIn {σ : Type} (f : Hooks → σ → Except Fault σ) (I : σ → Prop) {hs : List Hooks}
    (step : ∀ h ∈ hs, ∀ s, I s → PanicsIn P (f h s) ∧ ∀ s', f h s = .ok s' → I s') :
    ∀ s, I s → PanicsIn P (hs.foldlM (fun s h => f h s) s) := by
  induction hs with
  | nil => intro s _; exact panicsIn_ok s
  | cons h hs ih =>
    intro s hs'
    obtain ⟨hp, hok⟩ := step h (.head _) s hs'
    rw [List.foldlM_cons, panicsIn_bind]
    exact ⟨hp, fun s' h' => ih (fun k hk => step k (.tail _ hk)) s' (hok s' h')⟩

end PanicsIn

/-! ## The aborts of each hook -/

namespace OpenOrdersPda

variable (self : OpenOrdersPda) {P : Panic → Prop} {ctx : Context}

/-- `instruction` reads `data[0]`, and `data[1]` and `data[2]` after a zero discriminant: it
aborts only on fewer than three bytes. -/
theorem instruction_panicsIn (data : Bytes) :
    PanicsIn (fun p => p = .indexOutOfBounds ∧ data.length < 3) (self.instruction data) := by
  match data with
  | [] => simp
  | [x] | [x, b] => by_cases hx : x = 0 <;> simp [instruction, index, sliceFrom, hx]
  | x :: b :: bi :: d =>
    by_cases hx : x = 0
    · rw [hx, instruction_init]; exact panicsIn_ok _
    · rw [instruction_of_ne self hx]; exact panicsIn_ok _

/-- `instruction` consumes at most three bytes. -/
theorem instruction_length {data d : Bytes} {p' : OpenOrdersPda}
    (h : self.instruction data = .ok (p', d)) : data.length ≤ d.length + 3 := by
  rcases (instruction_eq_ok_iff self).mp h with ⟨_, _, rfl, -⟩ | ⟨_, _, rfl, -⟩ <;>
    simp only [List.length_cons] <;> omega

theorem signAsPda_panicsIn {m u p : Nat} (hm : m < ctx.accounts.length) (hu : u < ctx.accounts.length)
    (hp : p < ctx.accounts.length) : PanicsIn P (self.signAsPda m u p ctx) := by
  simp [signAsPda, pushSeeds, ErrorCode.custom, Nat.not_le.mpr hm, Nat.not_le.mpr hu, Nat.not_le.mpr hp]

/-- An init aborts only with an index out of bounds: it reads slots 3 and 4 before
`validate_init_accounts` checks the length, and guards its writes. -/
theorem initOpenOrders_panicsIn (ctx : Context) :
    PanicsIn (· = .indexOutOfBounds) (self.initOpenOrders ctx) := by
  by_cases hl : ctx.accounts.length ≤ 4
  · simp [initOpenOrders_of_short self hl]
  · simp [initOpenOrders, validateInitAccounts, pushSeeds, ErrorCode.custom,
      show ¬ctx.accounts.length < 2 by omega]

/-- Past the count check, `new_order_v3` aborts only in `approve_amount`, on the market at
slot 0. -/
theorem newOrderV3_panicsIn (ix : NewOrderInstructionV3) (h : 12 ≤ ctx.accounts.length)
    {market : AccountInfo} (hmk : ctx.accounts[0]? = some market) :
    PanicsIn (fun p => approveAmount ix market = .error (.panic p)) (self.newOrderV3 ctx ix) := by
  simp [newOrderV3, pushSeeds, ErrorCode.custom, index_eq_ok, hmk, List.ne_nil_of_length_pos (by omega : 0 < ctx.accounts.length),
    show ¬ctx.accounts.length ≤ 7 by omega, show ¬ctx.accounts.length ≤ 1 by omega,
    show ¬ctx.accounts.length ≤ 6 by omega]

theorem prune_panicsIn (l : UInt16) (h : 7 ≤ ctx.accounts.length) : PanicsIn P (prune ctx l) := by
  simp [prune, show ¬ctx.accounts.length ≤ 4 by omega, show ¬ctx.accounts.length ≤ 5 by omega]

end OpenOrdersPda

/-- Past the count check, a referral check aborts only in `authority`, on the account at
slot 9. -/
theorem ReferralFees.settleFunds_panicsIn (rf : ReferralFees) {ctx : Context}
    (h : 10 ≤ ctx.accounts.length) {a : AccountInfo} (ha : ctx.accounts[9]? = some a) :
    PanicsIn (fun p => p = .sliceOutOfRange ∧ a.data.length < 64) (rf.settleFunds ctx) := by
  simp [settleFunds, ErrorCode.custom, index_eq_ok, ha, show ¬ctx.accounts.length ≤ 9 by omega]

/-! ## The aborts of the dispatched hooks -/

/-- The aborts of the hooks a chain dispatches for `mi` over the working list `accounts`: an
init's index out of bounds, `approve_amount` of a new order on the market at slot 0, and
`authority` of a settle through a `ReferralFees` of the chain on the account at slot 9. -/
def HookAborts (chain : List Mw) (mi : MarketInstruction) (accounts : List AccountInfo)
    (p : Panic) : Prop :=
  (mi = .initOpenOrders ∧ p = .indexOutOfBounds) ∨
  (∃ ix market, mi = .newOrderV3 ix ∧ accounts[0]? = some market ∧
    OpenOrdersPda.approveAmount ix market = .error (.panic p)) ∨
  (mi = .settleFunds ∧ (∃ rf, .referralFees rf ∈ chain) ∧ p = .sliceOutOfRange ∧
    ∃ a, accounts[9]? = some a ∧ a.data.length < 64)

/-- Past the count check of its arm, a hook of the crate aborts only as `HookAborts` says; an
init aborts only with an index out of bounds, whatever the length of the list. -/
theorem Mw.hooks_call_panicsIn {chain : List Mw} (m : Mw) (hm : m.isPda = false → m ∈ chain)
    {ctx : Context} {mi : MarketInstruction} {hk : Hook} {n : Nat} (ha : mi.arm = some (hk, n))
    (hn : mi ≠ .initOpenOrders → n ≤ ctx.accounts.length) :
    PanicsIn (HookAborts chain mi ctx.accounts) (m.hooks.call (ctx, mi)) := by
  match m with
  | .logger => rw [hooks, Logger.hooks, Hooks.call_default]; exact panicsIn_ok _
  | .referralFees rf =>
    by_cases hs : mi = .settleFunds
    · subst hs
      cases ha
      have h10 := hn (nomatch ·)
      obtain ⟨a, h9⟩ : ∃ a, ctx.accounts[9]? = some a := ⟨_, List.getElem?_eq_getElem (by omega)⟩
      exact panicsIn_map.mpr ((rf.settleFunds_panicsIn h10 h9).mono fun _ ⟨hp, hl⟩ =>
        .inr (.inr ⟨rfl, ⟨rf, hm rfl⟩, hp, a, h9, hl⟩))
    · rw [hooks, ReferralFees.hooks_call_of_ne rf ctx hs]; exact panicsIn_ok _
  | .openOrdersPda p =>
    cases mi <;> simp only [MarketInstruction.arm, Option.some.injEq, Prod.mk.injEq,
      reduceCtorEq] at ha <;> obtain ⟨rfl, rfl⟩ := ha
    case initOpenOrders =>
      exact panicsIn_map.mpr ((p.initOpenOrders_panicsIn ctx).mono fun _ hp => .inl ⟨rfl, hp⟩)
    case newOrderV3 ix =>
      have hl := hn (nomatch ·)
      obtain ⟨market, h0⟩ : ∃ a, ctx.accounts[0]? = some a := ⟨_, List.getElem?_eq_getElem (by omega)⟩
      exact panicsIn_map.mpr ((p.newOrderV3_panicsIn ix hl h0).mono fun _ hp =>
        .inr (.inl ⟨ix, market, rfl, h0, hp⟩))
    case cancelOrderV2 | cancelOrderByClientIdV2 =>
      have hl := hn (nomatch ·)
      exact panicsIn_map.mpr (panicsIn_map.mpr (p.signAsPda_panicsIn (by omega) (by omega) (by omega)))
    case settleFunds | closeOpenOrders =>
      have hl := hn (nomatch ·)
      exact panicsIn_map.mpr (p.signAsPda_panicsIn (by omega) (by omega) (by omega))
    case prune l => exact panicsIn_map.mpr (OpenOrdersPda.prune_panicsIn l (hn (nomatch ·)))
    case consumeEvents | consumeEventsPermissioned => exact panicsIn_ok _

/-- Slots 0 and 9, which the aborts read, are no slot an operation other than an init writes. -/
theorem HookAborts.of_frame {chain : List Mw} {mi : MarketInstruction} {before after : List AccountInfo}
    (hf : mi ≠ .initOpenOrders → mi.Frame before after) {p : Panic}
    (h : HookAborts chain mi after p) : HookAborts chain mi before p := by
  rcases h with h | ⟨ix, market, rfl, hmk, hp⟩ | ⟨rfl, hrf, hp, a, ha, hl⟩
  · exact .inl h
  · have h0 := (hf (nomatch ·)).2 0 (by simp [MarketInstruction.pdaSlots]) fun _ h => nomatch h
    exact .inr (.inl ⟨ix, market, rfl, h0 ▸ hmk, hp⟩)
  · have h9 := (hf (nomatch ·)).2 9 (by simp [MarketInstruction.pdaSlots]) fun _ h => nomatch h
    exact .inr (.inr ⟨rfl, hrf, hp, a, h9 ▸ ha, hl⟩)

/-! ## The loops of `run` -/

/-- The pre-parse aborts only on data shorter than three bytes for each `OpenOrdersPda` of the
chain, with an index out of bounds. -/
theorem preParse_panicsIn (chain : List Mw) (i : Nat) (data : Bytes) :
    PanicsIn (fun p => p = .indexOutOfBounds ∧ data.length < 3 * chain.countP Mw.isPda)
      (preParse i (chain.map Mw.toMiddleware) data).result := by
  induction chain generalizing i data with
  | nil => exact panicsIn_ok _
  | cons m chain ih =>
    cases hpda : m.isPda with
    | false =>
      have hm : m.toMiddleware.instruction data = .ok (data, m.hooks) := by
        simp [Mw.toMiddleware, Mw.instruction_of_not_pda hpda]
      rw [List.map_cons, preParse_result_cons_ok hm, panicsIn_map,
        List.countP_cons_of_neg _ _ (by simp [hpda])]
      exact ih _ _
    | true =>
      match m, hpda with
      | .openOrdersPda s, _ =>
        rw [List.countP_cons_of_pos _ _ rfl]
        cases hs : s.instruction data with
        | error e =>
          have hm : (Mw.openOrdersPda s).toMiddleware.instruction data = .error e := by
            simp [Mw.toMiddleware, Mw.instruction, hs]
          rw [List.map_cons, preParse_cons_error hm]
          have key := s.instruction_panicsIn data
          rw [hs] at key
          cases e with
          | error e => exact panicsIn_error e
          | panic p =>
            obtain ⟨rfl, hl⟩ := (panicsIn_panic _).mp key
            exact (panicsIn_panic _).mpr ⟨rfl, by omega⟩
        | ok r =>
          obtain ⟨p', d⟩ := r
          have hm : (Mw.openOrdersPda s).toMiddleware.instruction data =
              .ok (d, (Mw.openOrdersPda p').hooks) := by
            simp [Mw.toMiddleware, Mw.instruction, hs]
          rw [List.map_cons, preParse_result_cons_ok hm, panicsIn_map]
          have hl := s.instruction_length hs
          exact (ih _ _).mono fun _ ⟨hp, h'⟩ => ⟨hp, by dsimp only at h'; omega⟩

/-- The dispatch of a chain's hooks aborts only in the hooks of the decoded instruction, as
`HookAborts` says, over the working list it started from: the fallback hooks of the crate and
the count check never abort. -/
theorem dispatch_panicsIn {chain chain' : List Mw} (hc : ∀ m ∈ chain', m.isPda = false → m ∈ chain)
    (ctx : Context) (ix : Option MarketInstruction) :
    PanicsIn (fun p => ∃ mi, ix = some mi ∧ HookAborts chain mi ctx.accounts p)
      (dispatch (chain'.map Mw.hooks) ctx ix).result := by
  have hfallback : ∀ P, PanicsIn P (fallback (chain'.map Mw.hooks) ctx).result := by
    intro P
    rw [fallback_eq, forHooks_result, panicsIn_map]
    refine foldlM_panicsIn _ (fun _ => True) (fun k hk s _ => ?_) ctx trivial
    obtain ⟨m, -, rfl⟩ := List.mem_map.mp hk
    cases m <;> exact ⟨panicsIn_ok _, fun _ _ => trivial⟩
  cases ha : ix.bind MarketInstruction.arm with
  | none => rw [dispatch_of_arm_none ha]; exact hfallback _
  | some a =>
    obtain ⟨hk, n⟩ := a
    obtain ⟨mi, rfl, ha⟩ := Option.bind_eq_some.mp ha
    by_cases hl : ctx.accounts.length < n
    · rw [dispatch_of_lt ha hl]; exact panicsIn_error _
    · rw [dispatch_of_le ha (Nat.not_lt.mp hl), Traced.result_map, panicsIn_map, forHooks_result]
      refine foldlM_panicsIn Hooks.call
        (fun s => s.2 = mi ∧ (mi ≠ .initOpenOrders → mi.Frame ctx.accounts s.1.accounts)) ?_ _
        ⟨rfl, fun _ => .refl _ _⟩
      rintro k hk ⟨c, _⟩ ⟨rfl, hframe⟩
      obtain ⟨m, hm, rfl⟩ := List.mem_map.mp hk
      refine ⟨(m.hooks_call_panicsIn (hc m hm) ha fun hmi => ?_).mono fun p hp =>
          ⟨_, rfl, hp.of_frame hframe⟩, fun s' hs' =>
        ⟨m.hooks_call_payload hs', fun hmi => (hframe hmi).trans (m.hooks_call_frame hmi hs')⟩⟩
      rw [(hframe hmi).1]; omega

/-- `prepare` of a chain of the crate aborts only at `accounts[0]` of an empty list, in the
pre-parse, or in the hooks of the decoded instruction. -/
theorem prepare_panicsIn (chain : List Mw) (codec : Codec) (programId : Pubkey)
    (accounts : List AccountInfo) (data : Bytes) :
    PanicsIn (fun p => p = .indexOutOfBounds ∧ (accounts = [] ∨ data.length < 3 * chain.countP Mw.isPda) ∨
        ∃ mi, MarketProxy.decode ⟨chain.map Mw.toMiddleware⟩ codec data = some mi ∧
          HookAborts chain mi (accounts.drop 1) p)
      (MarketProxy.prepare ⟨chain.map Mw.toMiddleware⟩ codec programId accounts data).result := by
  match accounts with
  | [] => rw [prepare_nil, panicsIn_panic]; exact .inl ⟨rfl, .inl rfl⟩
  | dex :: rest =>
    by_cases hd : dex.key = serumDexProgramId
    · rw [prepare_cons _ codec programId data hd, Traced.result_bind]
      cases hp : (preParse 0 (chain.map Mw.toMiddleware) data).result with
      | error e =>
        intro p he
        cases he
        obtain ⟨hidx, hl⟩ := preParse_panicsIn chain 0 data p hp
        exact .inl ⟨hidx, .inr hl⟩
      | ok r =>
        obtain ⟨d, hs⟩ := r
        obtain ⟨chain', rfl, -, hc, -⟩ := preParse_chain hp
        refine (dispatch_panicsIn hc _ _).mono fun p ⟨mi, hmi, h⟩ => .inr ⟨mi, ?_, h⟩
        rw [MarketProxy.decode_of_preParse hp]; exact hmi
    · rw [prepare_of_ne _ codec programId data hd]; exact panicsIn_error _

/-- The aborts of the proxy.  For any chain of the crate's middlewares, a run aborts only with
an index out of bounds on an empty account list or on data shorter than three bytes for each
`OpenOrdersPda` of the chain, or in a hook of the decoded instruction as `HookAborts` says: an
init's index out of bounds, `approve_amount` of a new order on the market at slot 0, or
`authority` of a settle through a `ReferralFees` on a slot-9 account of fewer than 64 bytes. -/
theorem run_panics {W : Type} (chain : List Mw) (codec : Codec) (host : Host W)
    (programId : Pubkey) (accounts : List AccountInfo) (data : Bytes) (w : W) {p : Panic}
    (h : (MarketProxy.run ⟨chain.map Mw.toMiddleware⟩ codec host programId accounts data w).result =
      .error (.panic p)) :
    p = .indexOutOfBounds ∧ (accounts = [] ∨ data.length < 3 * chain.countP Mw.isPda) ∨
      ∃ mi, MarketProxy.decode ⟨chain.map Mw.toMiddleware⟩ codec data = some mi ∧
        HookAborts chain mi (accounts.drop 1) p := by
  have hp : (MarketProxy.prepare ⟨chain.map Mw.toMiddleware⟩ codec programId accounts data).result =
      .error (.panic p) := by
    by_contra hne
    exact run_ne_panic_of_prepare _ codec host programId accounts data w hne h
  exact prepare_panicsIn chain codec programId accounts data p hp

/-- A settle through a `ReferralFees` whose slot-9 account holds no data aborts in `authority`
with a slice out of range. -/
theorem run_panics_referral_short :
    (MarketProxy.run ⟨[Mw.referralFees ⟨serumDexProgramId⟩].map Mw.toMiddleware⟩
      ⟨fun _ => some .settleFunds, fun _ => []⟩ (fun _ (w : Unit) => .ok w) serumDexProgramId
      (⟨serumDexProgramId, false, false, serumDexProgramId, []⟩ ::
        List.replicate 10 ⟨⟨List.replicate 32 2, rfl⟩, true, false, ⟨List.replicate 32 2, rfl⟩, []⟩)
      [] ()).result = .error (.panic .sliceOutOfRange) ∧
    (Panic.sliceOutOfRange = .indexOutOfBounds ∧
        ((⟨serumDexProgramId, false, false, serumDexProgramId, []⟩ ::
          List.replicate 10 ⟨⟨List.replicate 32 2, rfl⟩, true, false, ⟨List.replicate 32 2, rfl⟩, []⟩ :
            List AccountInfo) = [] ∨
          ([] : Bytes).length < 3 * [Mw.referralFees ⟨serumDexProgramId⟩].countP Mw.isPda) ∨
      ∃ mi, MarketProxy.decode ⟨[Mw.referralFees ⟨serumDexProgramId⟩].map Mw.toMiddleware⟩
          ⟨fun _ => some .settleFunds, fun _ => []⟩ [] = some mi ∧
        HookAborts [Mw.referralFees ⟨serumDexProgramId⟩] mi
          ((⟨serumDexProgramId, false, false, serumDexProgramId, []⟩ ::
            List.replicate 10 ⟨⟨List.replicate 32 2, rfl⟩, true, false, ⟨List.replicate 32 2, rfl⟩, []⟩ :
              List AccountInfo).drop 1) .sliceOutOfRange) := by
  refine ⟨?h, run_panics _ _ _ _ _ _ _ ?h⟩
  case h => rfl

end PermissionedDex
