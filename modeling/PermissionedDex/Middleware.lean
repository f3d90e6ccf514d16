import PermissionedDex.Context

/-!
# The middlewares: `OpenOrdersPda`, `Logger`, `ReferralFees`

`OpenOrdersPda` makes the open-orders account a program-derived address owned
through the proxy: its `instruction` hook strips the discriminant (and, for an
init, the two bump bytes), and each order hook checks that the user signed, adds
the open-orders authority seeds, and puts the open-orders account, marked as
signer, in the user's slot.  `cancel_order_v2`, `cancel_order_by_client_id_v2`,
`settle_funds` and `close_open_orders` differ only in their slots: they are
`signAsPda` at their own slots.  `new_order_v3` also queues an SPL approve before
the relay and a revoke after it.

`Logger` only writes to the program log; `ReferralFees` checks the owner of the
fee account of `settle_funds`.  `Mw` is a middleware of this crate, so that a
chain of them is a list.
-/

namespace PermissionedDex

/-! ## Seeds -/

/-- `b"open-orders"`. -/
def openOrdersLabel : Bytes := [111, 112, 101, 110, 45, 111, 114, 100, 101, 114, 115]

/-- `b"open-orders-init"`. -/
def openOrdersInitLabel : Bytes := openOrdersLabel ++ [45, 105, 110, 105, 116]

/-- `open_orders_authority!` with an explicit bump: the seeds of a user's open orders
account PDA. -/
def openOrdersAuthority (dexProgram market authority : Pubkey) (bump : UInt8) : SeedPath :=
  [openOrdersLabel, dexProgram.bytes, market.bytes, authority.bytes, [bump]]

/-- `open_orders_init_authority!`: the seeds of the account that must sign to create a
new open orders account on the market. -/
def openOrdersInitAuthority (dexProgram market : Pubkey) (bump : UInt8) : SeedPath :=
  [openOrdersInitLabel, dexProgram.bytes, market.bytes, [bump]]

/-! ## `OpenOrdersPda` -/

/-- Checks that the given open orders account signs the transaction and then replaces it
with the open orders account, which must be a PDA. -/
structure OpenOrdersPda where
  bump : UInt8
  bumpInit : UInt8
  deriving DecidableEq, Repr

namespace OpenOrdersPda

def new : OpenOrdersPda := ⟨0, 0⟩

def preparePda (accInfo : AccountInfo) : AccountInfo := { accInfo with isSigner := true }

/-- Validates the accounts structure for `init_open_orders`. -/
def validateInitAccounts (accounts : List AccountInfo) : Except Fault Unit := do
  require (5 ≤ accounts.length) (.error .notEnoughAccountKeys)
  let authority ← index accounts 1
  require authority.isSigner (.error .missingRequiredSignature)

def instruction (self : OpenOrdersPda) (data : Bytes) : Except Fault (OpenOrdersPda × Bytes) := do
  -- Strip the discriminator.
  let disc ← index data 0
  let data ← sliceFrom data 1
  -- Discriminator == 0 implies it's the init instruction.
  if disc = 0 then
    let bump ← index data 0
    let bumpInit ← index data 1
    let data ← sliceFrom data 2
    pure ({ self with bump, bumpInit }, data)
  else pure (self, data)

/-- Adds one signer to the context. -/
def pushSeeds (ctx : Context) (seeds : SeedPath) : Context := { ctx with seeds := ctx.seeds ++ [seeds] }

def initOpenOrders (self : OpenOrdersPda) (ctx : Context) : Except Fault Context := do
  let market ← index ctx.accounts 4
  let user ← index ctx.accounts 3
  -- Skip first 2 accounts (dex_program and system_program) for validation
  let remainingAccounts ← sliceFrom ctx.accounts 2
  validateInitAccounts remainingAccounts
  let ctx := pushSeeds ctx (openOrdersAuthority ctx.dexProgramId market.key user.key self.bump)
  let ctx := pushSeeds ctx (openOrdersInitAuthority ctx.dexProgramId market.key self.bumpInit)
  -- Update accounts (skip first 2)
  let accounts ← sliceFrom ctx.accounts 2
  -- Set PDAs - make sure we have enough accounts
  let accounts ← (if 1 < accounts.length then
      index accounts 0 >>= fun openOrders => setAt accounts 1 (preparePda openOrders)
    else pure accounts)
  let accounts ← (if 4 < accounts.length then
      index accounts 4 >>= fun marketAuthority =>
        setAt accounts 4 { marketAuthority with isSigner := true }
    else pure accounts)
  pure { ctx with accounts }

/-- The amount `new_order_v3` lets the PDA move: the quote ceiling of a bid; for an
ask, the coin quantity times the coin lot size, the `u64` at byte `5 + 43 * 8` of the
market account (after its 5 padding bytes). -/
def approveAmount (ix : NewOrderInstructionV3) (market : AccountInfo) : Except Fault UInt64 :=
  match ix.side with
  | .bid => pure ix.maxNativePcQtyIncludingFees.get
  | .ask => do
    let coinLotIdx := 5 + 43 * 8
    let coinLotArray ← slice market.data coinLotIdx (coinLotIdx + 8)
    let coinLotSize := u64FromLeBytes coinLotArray
    unwrap (checkedMul ix.maxCoinQty.get coinLotSize)

def newOrderV3 (self : OpenOrdersPda) (ctx : Context) (ix : NewOrderInstructionV3) :
    Except Fault (Context × NewOrderInstructionV3) := do
  -- The user must authorize the tx.
  let user ← index ctx.accounts 7
  require user.isSigner (ErrorCode.custom .unauthorizedUser)
  let market ← index ctx.accounts 0
  let openOrders ← index ctx.accounts 1
  let tokenAccountPayer ← index ctx.accounts 6
  -- Pre: Give the PDA delegate access.
  let amount ← approveAmount ix market
  let preIx ← liftErr (approve splTokenId tokenAccountPayer.key openOrders.key user.key [] amount)
  let ctx := { ctx with preInstructions :=
    ctx.preInstructions ++ [(preIx, [tokenAccountPayer, openOrders, user], [])] }
  -- Post: Revoke the PDA's delegate access.
  let postIx ← liftErr (revoke splTokenId tokenAccountPayer.key user.key [])
  let ctx := { ctx with postInstructions :=
    ctx.postInstructions ++ [(postIx, [tokenAccountPayer, user], [])] }
  -- Proxy: PDA must sign the new order.
  let ctx := pushSeeds ctx (openOrdersAuthority ctx.dexProgramId market.key user.key self.bump)
  let accounts ← setAt ctx.accounts 7 (preparePda openOrders)
  pure ({ ctx with accounts }, ix)

/-- The body of the hooks that only move authority to the PDA: the account at `user`
must sign; the open-orders authority seeds of the accounts at `market` and `user` are
added, and `user` is replaced by the account at `pda`, marked as signer. -/
def signAsPda (self : OpenOrdersPda) (market user pda : Nat) (ctx : Context) :
    Except Fault Context := do
  let marketAcc ← index ctx.accounts market
  let userAcc ← index ctx.accounts user
  require userAcc.isSigner (ErrorCode.custom .unauthorizedUser)
  let ctx := pushSeeds ctx (openOrdersAuthority ctx.dexProgramId marketAcc.key userAcc.key self.bump)
  let pdaAcc ← index ctx.accounts pda
  let accounts ← setAt ctx.accounts user (preparePda pdaAcc)
  pure { ctx with accounts }

def cancelOrderV2 (self : OpenOrdersPda) (ctx : Context) (ix : CancelOrderInstructionV2) :
    Except Fault (Context × CancelOrderInstructionV2) :=
  (·, ix) <$> self.signAsPda 0 4 3 ctx

def cancelOrderByClientIdV2 (self : OpenOrdersPda) (ctx : Context) (clientId : UInt64) :
    Except Fault (Context × UInt64) :=
  (·, clientId) <$> self.signAsPda 0 4 3 ctx

def settleFunds (self : OpenOrdersPda) (ctx : Context) : Except Fault Context :=
  self.signAsPda 0 2 1 ctx

def closeOpenOrders (self : OpenOrdersPda) (ctx : Context) : Except Fault Context :=
  self.signAsPda 3 1 0 ctx

def prune (ctx : Context) (limit : UInt16) : Except Fault (Context × UInt16) := do
  -- Set owner of open orders to be itself.
  let openOrders ← index ctx.accounts 4
  let accounts ← setAt ctx.accounts 5 openOrders
  pure ({ ctx with accounts }, limit)

def hooks (self : OpenOrdersPda) : Hooks where
  initOpenOrders := self.initOpenOrders
  newOrderV3 := self.newOrderV3
  cancelOrderV2 := self.cancelOrderV2
  cancelOrderByClientIdV2 := self.cancelOrderByClientIdV2
  settleFunds := self.settleFunds
  closeOpenOrders := self.closeOpenOrders
  prune := prune

/-! ### What each hook does -/

variable (self : OpenOrdersPda) {ctx ctx' : Context}

@[simp] theorem instruction_nil : self.instruction [] = .error (.panic .indexOutOfBounds) := rfl

theorem instruction_of_ne {d : UInt8} (h : d ≠ 0) (rest : Bytes) :
    self.instruction (d :: rest) = .ok (self, rest) := by
  simp [instruction, index, sliceFrom, h, pure, Except.pure]

theorem instruction_init (b bi : UInt8) (rest : Bytes) :
    self.instruction (0 :: b :: bi :: rest) = .ok ({ self with bump := b, bumpInit := bi }, rest) := by
  simp [instruction, index, sliceFrom]

@[simp] theorem instruction_zero : self.instruction [0] = .error (.panic .indexOutOfBounds) := rfl

@[simp] theorem instruction_zero_single (b : UInt8) :
    self.instruction [0, b] = .error (.panic .indexOutOfBounds) := rfl

theorem validateInitAccounts_eq_ok {accounts : List AccountInfo} {u : Unit} :
    validateInitAccounts accounts = .ok u ↔
      5 ≤ accounts.length ∧ ∃ a, accounts[1]? = some a ∧ a.isSigner = true := by
  simp only [validateInitAccounts, Except.bind_eq_ok, require_eq_ok, index_eq_ok]
  constructor
  · rintro ⟨_, h5, a, ha, hs⟩; exact ⟨h5, a, ha, hs⟩
  · rintro ⟨h5, a, ha, hs⟩; exact ⟨(), h5, a, ha, hs⟩

/-- An init that succeeds had at least seven working accounts and a signing user at slot 3;
it adds the authority and init-authority seeds, drops the first two accounts, signs for
the open orders account in the user's slot and for the market authority. -/
theorem initOpenOrders_ok (h : self.initOpenOrders ctx = .ok ctx') :
    ∃ a2 a3 a4 a6, ctx.accounts[2]? = some a2 ∧ ctx.accounts[3]? = some a3 ∧
      ctx.accounts[4]? = some a4 ∧ ctx.accounts[6]? = some a6 ∧ a3.isSigner = true ∧
      ctx' = { ctx with
        seeds := ctx.seeds ++ [openOrdersAuthority ctx.dexProgramId a4.key a3.key self.bump,
          openOrdersInitAuthority ctx.dexProgramId a4.key self.bumpInit]
        accounts := ((ctx.accounts.drop 2).set 1 (preparePda a2)).set 4 { a6 with isSigner := true } } := by
  simp only [initOpenOrders, Except.bind_eq_ok, index_eq_ok, sliceFrom_eq_ok,
    validateInitAccounts_eq_ok] at h
  obtain ⟨a4, h4, a3, h3, rem, ⟨-, rfl⟩, -, ⟨h5, a3', h3', hs⟩, accs, ⟨-, rfl⟩, accs₁, h1, accs₂, h2, h⟩ := h
  simp only [pushSeeds, List.length_drop, List.getElem?_drop] at h1 h2 h5 h3'
  rw [h3, Option.some.injEq] at h3'
  subst h3'
  obtain ⟨a2, h2'⟩ : ∃ a2, ctx.accounts[2]? = some a2 := ⟨_, List.getElem?_eq_getElem (by omega)⟩
  obtain ⟨a6, h6⟩ : ∃ a6, ctx.accounts[6]? = some a6 := ⟨_, List.getElem?_eq_getElem (by omega)⟩
  rw [if_pos (by omega)] at h1
  simp only [Except.bind_eq_ok, index_eq_ok, setAt_eq_ok, List.getElem?_drop, h2',
    Option.some.injEq] at h1
  obtain ⟨_, rfl, -, rfl⟩ := h1
  rw [if_pos (by simp; omega)] at h2
  simp only [Except.bind_eq_ok, index_eq_ok, setAt_eq_ok, List.getElem?_set_ne (by omega : 1 ≠ 4),
    List.getElem?_drop, h6, Option.some.injEq] at h2
  obtain ⟨_, rfl, -, rfl⟩ := h2
  cases h
  exact ⟨a2, a3, a4, a6, h2', h3, h4, h6, hs, by simp [pushSeeds]⟩

/-- The approved amount, as an unbounded number: the quote ceiling of a bid; for an ask,
the coin quantity times the lot size at bytes 349..357 of the market, when the market has
those bytes and the product fits in a `u64` (the hook fails otherwise). -/
theorem approveAmount_ok {ix : NewOrderInstructionV3} {market : AccountInfo} {amount : UInt64}
    (h : approveAmount ix market = .ok amount) :
    (ix.side = .bid ∧ amount = ix.maxNativePcQtyIncludingFees.get) ∨
    (ix.side = .ask ∧ 357 ≤ market.data.length ∧
      ix.maxCoinQty.get.toNat * leNat ((market.data.drop 349).take 8) < UInt64.size ∧
      amount.toNat = ix.maxCoinQty.get.toNat * leNat ((market.data.drop 349).take 8)) := by
  unfold approveAmount at h
  cases hs : ix.side with
  | bid => rw [hs] at h; cases h; exact .inl ⟨rfl, rfl⟩
  | ask =>
    rw [hs] at h
    simp only [Except.bind_eq_ok, slice_eq_ok, unwrap_eq_ok] at h
    obtain ⟨lot, ⟨⟨-, hlen⟩, rfl⟩, hm⟩ := h
    have h8 : ((market.data.drop 349).take (349 + 8 - 349)).length = 8 := by simp; omega
    rw [checkedMul_eq_some, u64FromLeBytes_toNat h8] at hm
    exact .inr ⟨rfl, hlen, hm⟩

/-- A new order that succeeds had a signing user at slot 7; it queues the approve of
`approveAmount` from the payer's token account (slot 6) to the open orders account (slot 1)
and the matching revoke, adds the authority seeds, and signs for the open orders account in
the user's slot. -/
theorem newOrderV3_ok {ix ix' : NewOrderInstructionV3} (h : self.newOrderV3 ctx ix = .ok (ctx', ix')) :
    ∃ market openOrders payer user amount, ctx.accounts[0]? = some market ∧
      ctx.accounts[1]? = some openOrders ∧ ctx.accounts[6]? = some payer ∧
      ctx.accounts[7]? = some user ∧ user.isSigner = true ∧
      approveAmount ix market = .ok amount ∧ ix' = ix ∧
      ctx' = { ctx with
        preInstructions := ctx.preInstructions ++
          [(approveIx splTokenId payer.key openOrders.key user.key [] amount, [payer, openOrders, user], [])]
        postInstructions := ctx.postInstructions ++
          [(revokeIx splTokenId payer.key user.key [], [payer, user], [])]
        seeds := ctx.seeds ++ [openOrdersAuthority ctx.dexProgramId market.key user.key self.bump]
        accounts := ctx.accounts.set 7 (preparePda openOrders) } := by
  simp only [newOrderV3, Except.bind_eq_ok, index_eq_ok, require_eq_ok, approve_splTokenId,
    revoke_splTokenId, liftErr, Except.mapError, setAt_eq_ok, pushSeeds, Except.ok.injEq] at h
  obtain ⟨user, h7, -, hs, market, h0, oo, h1, payer, h6, amount, ha, _, rfl, _, rfl, accs, ⟨-, rfl⟩, h⟩ := h
  cases h
  exact ⟨market, oo, payer, user, amount, h0, h1, h6, h7, hs, ha, rfl, rfl⟩

/-- Conversely, a signing user at slot 7 and an amount `approveAmount` accepts make a new
order pass, with the queues, seeds and accounts `newOrderV3_ok` names. -/
theorem newOrderV3_of_approve {ix : NewOrderInstructionV3}
    {market openOrders payer user : AccountInfo} {amount : UInt64}
    (h0 : ctx.accounts[0]? = some market) (h1 : ctx.accounts[1]? = some openOrders)
    (h6 : ctx.accounts[6]? = some payer) (h7 : ctx.accounts[7]? = some user)
    (hs : user.isSigner = true) (ha : approveAmount ix market = .ok amount) :
    self.newOrderV3 ctx ix = .ok ({ ctx with
      preInstructions := ctx.preInstructions ++
        [(approveIx splTokenId payer.key openOrders.key user.key [] amount, [payer, openOrders, user], [])]
      postInstructions := ctx.postInstructions ++
        [(revokeIx splTokenId payer.key user.key [], [payer, user], [])]
      seeds := ctx.seeds ++ [openOrdersAuthority ctx.dexProgramId market.key user.key self.bump]
      accounts := ctx.accounts.set 7 (preparePda openOrders) }, ix) := by
  simp only [newOrderV3, Except.bind_eq_ok, index_eq_ok, require_eq_ok, approve_splTokenId,
    revoke_splTokenId, liftErr, Except.mapError, setAt_eq_ok, pushSeeds, Except.ok.injEq]
  exact ⟨user, h7, (), hs, market, h0, openOrders, h1, payer, h6, amount, ha, _, rfl, _, rfl, _,
    ⟨(List.getElem?_eq_some_iff.mp h7).1, rfl⟩, rfl⟩

/-- `signAsPda` that succeeds had a signing user at `user`; it adds the authority seeds of
the market and user and signs for the account at `pda` in the user's slot. -/
theorem signAsPda_ok {m u p : Nat} (h : self.signAsPda m u p ctx = .ok ctx') :
    ∃ market user pda, ctx.accounts[m]? = some market ∧ ctx.accounts[u]? = some user ∧
      ctx.accounts[p]? = some pda ∧ user.isSigner = true ∧ u < ctx.accounts.length ∧
      ctx' = { ctx with
        seeds := ctx.seeds ++ [openOrdersAuthority ctx.dexProgramId market.key user.key self.bump]
        accounts := ctx.accounts.set u (preparePda pda) } := by
  simp only [signAsPda, Except.bind_eq_ok, index_eq_ok, setAt_eq_ok, require_eq_ok] at h
  obtain ⟨market, hm, user, hu, -, hs, pda, hp, accs, ⟨hlt, rfl⟩, h⟩ := h
  cases h
  exact ⟨market, user, pda, hm, hu, hp, hs, hlt, rfl⟩

theorem prune_ok {l l' : UInt16} (h : prune ctx l = .ok (ctx', l')) :
    ∃ a4, ctx.accounts[4]? = some a4 ∧ 5 < ctx.accounts.length ∧ l' = l ∧
      ctx' = { ctx with accounts := ctx.accounts.set 5 a4 } := by
  simp only [prune, Except.bind_eq_ok, index_eq_ok, setAt_eq_ok] at h
  obtain ⟨a4, h4, accs, ⟨hlt, rfl⟩, h⟩ := h
  cases h
  exact ⟨a4, h4, hlt, rfl, rfl⟩

end OpenOrdersPda

/-! ## `Logger` and `ReferralFees` -/

/-- Logs each request: its hooks write to the program log (`msg!`), which is not kept
here, and return `Ok(())`. -/
def Logger.hooks : Hooks := {}

/-- Enforces referral fees being sent to the configured address. -/
structure ReferralFees where
  referral : Pubkey
  deriving DecidableEq, Repr

namespace ReferralFees

def new (referral : Pubkey) : ReferralFees := ⟨referral⟩

def settleFunds (self : ReferralFees) (ctx : Context) : Except Fault Context := do
  let referral ← authority (← index ctx.accounts 9)
  require (referral = self.referral) (ErrorCode.custom .invalidReferral)
  pure ctx

def hooks (self : ReferralFees) : Hooks := { settleFunds := self.settleFunds }

/-- The check passes exactly when the owner of the token account at slot 9 is the
configured referral; the context is left as it was. -/
theorem settleFunds_eq_ok (self : ReferralFees) {ctx ctx' : Context} :
    self.settleFunds ctx = .ok ctx' ↔
      ∃ a, ctx.accounts[9]? = some a ∧ authority a = .ok self.referral ∧ ctx' = ctx := by
  simp only [settleFunds, Except.bind_eq_ok, index_eq_ok, require_eq_ok]
  constructor
  · rintro ⟨a, h9, r, ha, -, rfl, h⟩; cases h; exact ⟨a, h9, ha, rfl⟩
  · rintro ⟨a, h9, ha, rfl⟩; exact ⟨a, h9, _, ha, (), rfl, rfl⟩

end ReferralFees

/-- A middleware of this crate, with its state. -/
inductive Mw where
  | openOrdersPda (s : OpenOrdersPda)
  | logger
  | referralFees (r : ReferralFees)
  deriving DecidableEq, Repr

namespace Mw

/-- The `instruction` hook, with the state it leaves; only `OpenOrdersPda` has one of its own. -/
def instruction : Mw → Bytes → Except Fault (Mw × Bytes)
  | .openOrdersPda s, data => (fun r => (.openOrdersPda r.1, r.2)) <$> s.instruction data
  | m, data => .ok (m, data)

def hooks : Mw → Hooks
  | .openOrdersPda s => s.hooks
  | .logger => Logger.hooks
  | .referralFees r => r.hooks

def toMiddleware (m : Mw) : MarketMiddleware :=
  ⟨fun data => (fun r => (r.2, r.1.hooks)) <$> m.instruction data⟩

def isPda : Mw → Bool
  | .openOrdersPda _ => true
  | _ => false

end Mw

end PermissionedDex
