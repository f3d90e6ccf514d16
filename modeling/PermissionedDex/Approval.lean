import PermissionedDex.Provenance

/-!
# The token approval around a new order

`new_order_v3` of `OpenOrdersPda` lets the open orders PDA move the payer's tokens for
the order: it queues an SPL `approve` to run before the relay and the `revoke` of the same
account to run after it.  No other hook of the crate queues anything.

* `approveAmount_eq_ok_iff`: the approved amount is `approveAmountSpec`, the quote ceiling
  of a bid or, for an ask, the coin quantity times the lot size of the market, exactly, as
  an unbounded number; the hook fails when the market is too short or the product does
  not fit in a `u64`.
* `Mw.hooks_call_queues`: what each hook of the crate queues.
* `prepare_paired`: whatever the chain, the context `run` relays has its approves and
  revokes paired in order (`ApproveRevoke`).
* `run_events_of_ok`: a run that succeeds made the calls of that context in order: every
  approve, then the relay, then every revoke, then the post callbacks.
* `DelegateLaw`: how approves, revokes and other calls move the delegates of token
  accounts.  `callAll_delegates`: under it, the calls of a paired context leave no
  delegate they granted.
-/

namespace PermissionedDex

/-! ## The approved amount -/

namespace OpenOrdersPda

/-- The amount `new_order_v3` is to approve, in unbounded numbers: the quote ceiling of a
bid; for an ask, the coin quantity times the coin lot size, the little-endian `u64` at
bytes `349..357` of the market account. -/
def approveAmountSpec (ix : NewOrderInstructionV3) (market : AccountInfo) : Nat :=
  match ix.side with
  | .bid => ix.maxNativePcQtyIncludingFees.get.toNat
  | .ask => ix.maxCoinQty.get.toNat * leNat ((market.data.drop 349).take 8)

/-- `approveAmount` computes `approveAmountSpec`, never reduced modulo `2^64`: it succeeds
exactly when, for an ask, the market has the lot size bytes and the product fits in a
`u64`. -/
theorem approveAmount_eq_ok_iff {ix : NewOrderInstructionV3} {market : AccountInfo}
    {amount : UInt64} :
    approveAmount ix market = .ok amount ↔
      (ix.side = .ask → 357 ≤ market.data.length ∧ approveAmountSpec ix market < UInt64.size) ∧
        amount.toNat = approveAmountSpec ix market := by
  constructor
  · intro h
    rcases approveAmount_ok h with ⟨hs, rfl⟩ | ⟨hs, hlen, hlt, heq⟩
    · simp [approveAmountSpec, hs]
    · simp only [approveAmountSpec, hs]
      exact ⟨fun _ => ⟨hlen, hlt⟩, heq⟩
  · rintro ⟨hask, heq⟩
    unfold approveAmount
    unfold approveAmountSpec at hask heq
    cases hs : ix.side with
    | bid =>
      rw [hs] at heq
      exact congrArg Except.ok (UInt64.eq_of_val_eq (Fin.ext heq)).symm
    | ask =>
      obtain ⟨hlen, hlt⟩ := hask hs
      rw [hs] at heq hlt
      have h8 : ((market.data.drop 349).take 8).length = 8 := by simp; omega
      simp only [Except.bind_eq_ok, slice_eq_ok, unwrap_eq_ok, checkedMul_eq_some]
      exact ⟨_, ⟨⟨by omega, hlen⟩, rfl⟩, by rw [u64FromLeBytes_toNat h8]; exact ⟨hlt, heq⟩⟩

end OpenOrdersPda

/-! ## What the hooks queue -/

/-- The approval of one new order: the payer's token account, the open orders account it is
delegated to, the user who owns the payer account, and the amount. -/
structure Approval where
  payer : AccountInfo
  openOrders : AccountInfo
  user : AccountInfo
  amount : UInt64
  deriving DecidableEq, Repr

namespace Approval

/-- The approve `new_order_v3` queues before the relay. -/
def approveEntry (a : Approval) : Instruction × List AccountInfo × Seeds :=
  (approveIx splTokenId a.payer.key a.openOrders.key a.user.key [] a.amount,
    [a.payer, a.openOrders, a.user], [])

/-- The revoke `new_order_v3` queues after the relay. -/
def revokeEntry (a : Approval) : Instruction × List AccountInfo × Seeds :=
  (revokeIx splTokenId a.payer.key a.user.key [], [a.payer, a.user], [])

end Approval

/-- A hook queues nothing, or it is a new order of `OpenOrdersPda` that passed and queues
the approve of `approveAmount` from the payer (slot 6) to the open orders account (slot 1),
owned by the user (slot 7), before the relay, and its revoke after it.  No hook queues a
post callback. -/
def Queues (ctx ctx' : Context) (mi : MarketInstruction) : Prop :=
  ctx'.postCallbacks = ctx.postCallbacks ∧
  ((ctx'.preInstructions = ctx.preInstructions ∧ ctx'.postInstructions = ctx.postInstructions) ∨
    ∃ (ix : NewOrderInstructionV3) (market : AccountInfo) (a : Approval), mi = .newOrderV3 ix ∧
      ctx.accounts[0]? = some market ∧ ctx.accounts[1]? = some a.openOrders ∧
      ctx.accounts[6]? = some a.payer ∧ ctx.accounts[7]? = some a.user ∧
      OpenOrdersPda.approveAmount ix market = .ok a.amount ∧
      ctx'.preInstructions = ctx.preInstructions ++ [a.approveEntry] ∧
      ctx'.postInstructions = ctx.postInstructions ++ [a.revokeEntry])

theorem Queues.of_eq {ctx ctx' : Context} {mi : MarketInstruction}
    (hpre : ctx'.preInstructions = ctx.preInstructions)
    (hpost : ctx'.postInstructions = ctx.postInstructions)
    (hcb : ctx'.postCallbacks = ctx.postCallbacks) : Queues ctx ctx' mi :=
  ⟨hcb, .inl ⟨hpre, hpost⟩⟩

namespace OpenOrdersPda

variable (self : OpenOrdersPda) {ctx : Context}

theorem hooks_call_queues {mi : MarketInstruction} {r : Context × MarketInstruction}
    (h : self.hooks.call (ctx, mi) = .ok r) : Queues ctx r.1 mi := by
  rcases hooks_call_cases self ctx h with ⟨_, _, _, c, -, hc, rfl⟩ | ⟨c, rfl, hc, rfl⟩ |
    ⟨ix, c, rfl, hc, rfl⟩ | ⟨l, c, rfl, hc, rfl⟩ | ⟨-, rfl⟩
  · obtain ⟨_, _, _, -, -, -, -, -, rfl⟩ := signAsPda_ok self hc
    exact Queues.of_eq rfl rfl rfl
  · obtain ⟨_, _, _, _, -, -, -, -, -, rfl⟩ := initOpenOrders_ok self hc
    exact Queues.of_eq rfl rfl rfl
  · obtain ⟨market, oo, payer, user, amount, h0, h1, h6, h7, -, ha, -, rfl⟩ := newOrderV3_ok self hc
    exact ⟨rfl, .inr ⟨ix, market, ⟨payer, oo, user, amount⟩, rfl, h0, h1, h6, h7, ha, rfl, rfl⟩⟩
  · obtain ⟨_, -, -, -, rfl⟩ := prune_ok hc
    exact Queues.of_eq rfl rfl rfl
  · exact Queues.of_eq rfl rfl rfl

end OpenOrdersPda

/-- What every hook of the crate queues. -/
theorem Mw.hooks_call_queues (m : Mw) {ctx : Context} {mi : MarketInstruction}
    {r : Context × MarketInstruction} (h : m.hooks.call (ctx, mi) = .ok r) : Queues ctx r.1 mi := by
  cases hm : m.isPda with
  | false => rw [hooks_call_of_not_pda hm h]; exact Queues.of_eq rfl rfl rfl
  | true =>
    match m, hm with
    | .openOrdersPda p, _ => exact p.hooks_call_queues h

/-- `e` is the approve of a new order of `order` on the working list `accounts`: from the
payer's account at slot 6 to the open orders account at slot 1, of `approveAmountSpec` of the
order and the market at slot 0. -/
def ApprovesOrder (order : NewOrderInstructionV3) (accounts : List AccountInfo)
    (e : Instruction × List AccountInfo × Seeds) : Prop :=
  ∃ (market : AccountInfo) (a : Approval), accounts[0]? = some market ∧
    accounts[1]? = some a.openOrders ∧ accounts[6]? = some a.payer ∧
    a.amount.toNat = OpenOrdersPda.approveAmountSpec order market ∧ e = a.approveEntry

/-- Along the hooks of any chain, every approve queued for a new order approves it on the
working list the chain started from: the hooks of a new order write only slot 7, so every
`OpenOrdersPda` of the chain reads the same three accounts. -/
theorem foldlM_newOrderV3_approves {l : List Mw} {order : NewOrderInstructionV3} {ctx : Context}
    {r : Context × MarketInstruction} (hpre : ctx.preInstructions = [])
    (h : (l.map Mw.hooks).foldlM (fun s k => k.call s) (ctx, .newOrderV3 order) = .ok r) :
    ∀ e ∈ r.1.preInstructions, ApprovesOrder order ctx.accounts e := by
  refine (foldlM_inv Hooks.call (fun s => (s.2 = .newOrderV3 order ∧
      (MarketInstruction.newOrderV3 order).Frame ctx.accounts s.1.accounts) ∧
      ∀ e ∈ s.1.preInstructions, ApprovesOrder order ctx.accounts e)
    ?_ h ⟨⟨rfl, .refl _ _⟩, by simp [hpre]⟩).2
  rintro k hk ⟨c, _⟩ s' hc ⟨⟨rfl, hf⟩, happ⟩
  refine ⟨Mw.frame_step (by simp) ctx.accounts k hk _ s' hc ⟨rfl, hf⟩, ?_⟩
  obtain ⟨m, -, rfl⟩ := List.mem_map.mp hk
  rcases (m.hooks_call_queues hc).2 with ⟨hq, -⟩ | ⟨ix, market, a, hix, h0, h1, h6, -, ha, hq, -⟩
  · rwa [hq]
  · cases hix
    -- slots 0, 1 and 6 are the caller's: the hooks of a new order write only slot 7
    have hslot : ∀ j ∈ [0, 1, 6], c.accounts[j]? = ctx.accounts[j]? := fun j hj =>
      hf.2 j (by
        simp only [MarketInstruction.pdaSlots, List.mem_cons, List.not_mem_nil, or_false] at hj ⊢
        omega) fun _ h => nomatch h
    rw [hq]
    intro e he
    rcases List.mem_append.mp he with he | he
    · exact happ e he
    · exact ⟨market, a, (hslot 0 (by simp)).symm.trans h0, (hslot 1 (by simp)).symm.trans h1,
        (hslot 6 (by simp)).symm.trans h6, (OpenOrdersPda.approveAmount_eq_ok_iff.mp ha).2,
        List.mem_singleton.mp he⟩

/-! ## Approves and revokes pair up -/

/-- The queues of a context are those of a list of approvals: its approves before the
relay and their revokes after it, in the same order, and no post callback. -/
def Context.Paired (ctx : Context) : Prop :=
  (∃ qs : List Approval, ctx.preInstructions = qs.map Approval.approveEntry ∧
    ctx.postInstructions = qs.map Approval.revokeEntry) ∧ ctx.postCallbacks = []

theorem Queues.paired {ctx ctx' : Context} {mi : MarketInstruction} (hq : Queues ctx ctx' mi)
    (h : ctx.Paired) : ctx'.Paired := by
  obtain ⟨⟨qs, hpre, hpost⟩, hcb⟩ := h
  obtain ⟨hcb', ⟨hpre', hpost'⟩ | ⟨_, _, a, -, -, -, -, -, -, hpre', hpost'⟩⟩ := hq
  all_goals refine ⟨?_, hcb'.trans hcb⟩
  · exact ⟨qs, hpre'.trans hpre, hpost'.trans hpost⟩
  · exact ⟨qs ++ [a], by rw [hpre', hpre, List.map_append]; rfl,
      by rw [hpost', hpost, List.map_append]; rfl⟩

/-- Whatever the chain and the order of its middlewares, the context `run` relays is
paired. -/
theorem prepare_paired {chain : List Mw} {codec : Codec} {programId : Pubkey}
    {accounts : List AccountInfo} {data : Bytes} {ctx : Context} {mi : MarketInstruction}
    (h : (MarketProxy.prepare ⟨chain.map Mw.toMiddleware⟩ codec programId accounts data).result =
      .ok (some (ctx, mi))) : ctx.Paired := by
  obtain ⟨dex, rest, d, hs, mi', -, -, rfl, -, hp, -, -, -, hf⟩ := prepare_ok_some _ _ _ _ h
  obtain ⟨chain', rfl, -⟩ := preParse_chain hp
  refine foldlM_inv Hooks.call (fun s => s.1.Paired) ?_ hf ⟨⟨[], rfl, rfl⟩, rfl⟩
  rintro k hk ⟨c, mi⟩ s' hc hpair
  obtain ⟨m, -, rfl⟩ := List.mem_map.mp hk
  exact (m.hooks_call_queues hc).paired hpair

/-! ## The calls of a run that succeeds -/

section Calls

variable {W : Type} (host : Host W)

theorem callAll_result_append {l₁ l₂ : List (Phase × Call)} {w w' : W}
    (h : (callAll host (l₁ ++ l₂) w).result = .ok w') :
    ∃ w₁, (callAll host l₁ w).result = .ok w₁ ∧ (callAll host l₂ w₁).result = .ok w' := by
  rw [callAll_append, Traced.result_bind] at h
  cases h₁ : (callAll host l₁ w).result with
  | error e => rw [h₁] at h; cases h
  | ok w₁ => rw [h₁] at h; exact ⟨w₁, rfl, h⟩

/-- What every call of a list keeps holds after the list succeeded. -/
theorem callAll_inv (P : W → Prop) {l : List (Phase × Call)}
    (step : ∀ p ∈ l, ∀ w w', host p.2 w = .ok w' → P w → P w') {w w' : W}
    (h : (callAll host l w).result = .ok w') (hw : P w) : P w' := by
  induction l generalizing w with
  | nil => cases h; exact hw
  | cons p l ih =>
    obtain ⟨ph, c⟩ := p
    cases hc : host c w with
    | error e => rw [callAll_cons_error host hc] at h; cases h
    | ok w₁ =>
      rw [callAll_cons_ok host hc] at h
      exact ih (fun p hp => step p (List.mem_cons_of_mem _ hp)) h
        (step _ (List.mem_cons_self _ _) w w₁ hc hw)

/-- A run that succeeds went to the fallback hooks and made no external call, or it made
every call of the context `prepare` left, in order, and they all succeeded: each queued
pre instruction, the relay, each queued post instruction, each post callback. -/
theorem run_events_of_ok (self : MarketProxy) (codec : Codec) (programId : Pubkey)
    (accounts : List AccountInfo) (data : Bytes) (w : W) {w' : W}
    (h : (self.run codec host programId accounts data w).result = .ok w') :
    ((self.prepare codec programId accounts data).result = .ok none ∧ w' = w ∧
      ∀ ev ∈ (self.run codec host programId accounts data w).events, ev.isCall = false) ∨
    ∃ ctx mi, (self.prepare codec programId accounts data).result = .ok (some (ctx, mi)) ∧
      (self.run codec host programId accounts data w).events =
        (self.prepare codec programId accounts data).events ++
          (ctx.calls programId (codec.pack mi)).map (fun p => .call p.1 p.2) ∧
      (callAll host (ctx.calls programId (codec.pack mi)) w).result = .ok w' := by
  cases hp : (self.prepare codec programId accounts data).result with
  | error e => rw [run_of_prepare_error self codec host programId accounts data w hp] at h; cases h
  | ok r =>
    match r, hp with
    | none, hp =>
      rw [run_of_prepare_none self codec host programId accounts data w hp] at h ⊢
      cases h
      exact .inl ⟨rfl, rfl, prepare_events_not_call self codec programId data accounts⟩
    | some (ctx, mi), hp =>
      rw [run_of_prepare_some self codec host programId accounts data w hp] at h ⊢
      exact .inr ⟨ctx, mi, rfl, by rw [callAll_events_of_ok host h], h⟩

/-- Once a list of calls made a relay, it made every call of a prefix of pre instructions. -/
theorem callAll_pre_of_relay {l₁ l₂ : List (Phase × Call)} (hl₁ : ∀ p ∈ l₁, p.1 = .pre)
    {c : Call} {w : W} (h : Event.call .relay c ∈ (callAll host (l₁ ++ l₂) w).events) :
    ∀ p ∈ l₁, Event.call p.1 p.2 ∈ (callAll host (l₁ ++ l₂) w).events := by
  obtain ⟨m, -, he⟩ := callAll_events host (l₁ ++ l₂) w
  rw [he] at h ⊢
  intro p hp
  obtain ⟨q, hq, hqe⟩ := List.mem_map.mp h
  by_cases hm : m ≤ l₁.length
  · rw [List.take_append_of_le_length hm] at hq
    have hpre := hl₁ q (List.mem_of_mem_take hq)
    simp only [Event.call.injEq] at hqe
    rw [hqe.1] at hpre
    cases hpre
  · rw [List.take_append_eq_append_take, List.take_of_length_le (by omega)]
    exact List.mem_map_of_mem _ (List.mem_append_left _ hp)

/-- The pre instruction calls of a run are calls of the queued pre instructions of the
context `prepare` left, and once the run reached the relay it made all of them. -/
theorem run_pre_calls (self : MarketProxy) (codec : Codec) (programId : Pubkey)
    (accounts : List AccountInfo) (data : Bytes) (w : W) {ctx : Context} {mi : MarketInstruction}
    (hp : (self.prepare codec programId accounts data).result = .ok (some (ctx, mi))) :
    (∀ c, Event.call .pre c ∈ (self.run codec host programId accounts data w).events →
      ∃ e ∈ ctx.preInstructions, c = .invokeSigned e.1 e.2.1 e.2.2) ∧
    (∀ c, Event.call .relay c ∈ (self.run codec host programId accounts data w).events →
      ∀ e ∈ ctx.preInstructions,
        Event.call .pre (.invokeSigned e.1 e.2.1 e.2.2) ∈
          (self.run codec host programId accounts data w).events) := by
  refine ⟨fun c h => ?_, fun c h e he => ?_⟩
  · obtain ⟨ctx', mi', hp', hc⟩ := run_call self codec host programId accounts data w h
    rw [hp, Except.ok.injEq, Option.some.injEq, Prod.mk.injEq] at hp'
    obtain ⟨rfl, rfl⟩ := hp'
    simp only [Context.calls, List.mem_append, List.mem_cons, List.mem_map, Prod.mk.injEq] at hc
    rcases hc with ⟨e, he, -, rfl⟩ | ⟨h', -⟩ | ⟨_, _, h', _⟩ | ⟨_, _, h', _⟩
    · exact ⟨e, he, rfl⟩
    all_goals cases h'
  · rw [run_of_prepare_some self codec host programId accounts data w hp] at h ⊢
    refine List.mem_append_right _ ?_
    rcases List.mem_append.mp h with h | h
    · exact absurd (prepare_events_not_call self codec programId data accounts _ h) (by simp [Event.isCall])
    · have hl : ∀ p ∈ ctx.preInstructions.map (fun e => (Phase.pre, Call.invokeSigned e.1 e.2.1 e.2.2)),
          p.1 = .pre := fun p hp => by obtain ⟨e, -, rfl⟩ := List.mem_map.mp hp; rfl
      exact callAll_pre_of_relay host hl h (.pre, _) (List.mem_map_of_mem _ he)

end Calls

/-! ## Delegates -/

/-- A call to the SPL token program. -/
def Call.isToken : Call → Bool
  | .invokeSigned ix _ _ => decide (ix.programId = splTokenId)
  | .postCallback _ _ _ _ _ => false

theorem Call.isToken_relay (accs : List AccountInfo) (ixData : Bytes) (seeds : Seeds) :
    (Call.invokeSigned (relayInstruction accs ixData) accs seeds).isToken = false := by
  show decide (serumDexProgramId = splTokenId) = false
  decide

/-- How calls move the delegates of token accounts, `delegate w s` being the delegate of the
token account `s` in the state `w` of the rest of the chain: the SPL approve the proxy
queues sets the delegate of its source, the SPL revoke clears it, and a call that is not to
the token program at most clears a delegate (the DEX may spend a delegated amount). -/
structure DelegateLaw {W : Type} (host : Host W) (delegate : W → Pubkey → Option Pubkey) : Prop where
  approve : ∀ {source del owner : Pubkey} {amount : UInt64} {accs : List AccountInfo}
    {seeds : Seeds} {w w' : W},
    host (.invokeSigned (approveIx splTokenId source del owner [] amount) accs seeds) w = .ok w' →
      ∀ s, delegate w' s = if s = source then some del else delegate w s
  revoke : ∀ {source owner : Pubkey} {accs : List AccountInfo} {seeds : Seeds} {w w' : W},
    host (.invokeSigned (revokeIx splTokenId source owner []) accs seeds) w = .ok w' →
      ∀ s, delegate w' s = if s = source then none else delegate w s
  other : ∀ {c : Call} {w w' : W}, c.isToken = false → host c w = .ok w' →
      ∀ s, delegate w' s = delegate w s ∨ delegate w' s = none

/-- A token program that keeps only the delegates, so that `DelegateLaw` is seen to hold of
a host: an SPL approve (tag `4`) makes its second account the delegate of its first, an SPL
revoke (tag `5`) clears the delegate of its first account, every other call changes
nothing. -/
def delegateHost : Host (Pubkey → Option Pubkey)
  | .invokeSigned ix _ _, w =>
    if ix.programId = splTokenId then
      match ix.data, ix.accounts with
      | 4 :: _, source :: del :: _ => .ok (Function.update w source.pubkey (some del.pubkey))
      | 5 :: _, source :: _ => .ok (Function.update w source.pubkey none)
      | _, _ => .ok w
    else .ok w
  | .postCallback _ _ _ _ _, w => .ok w

theorem delegateHost_law : DelegateLaw delegateHost id where
  approve h s := by
    simp only [delegateHost, approveIx, if_true, u64ToLeBytes] at h
    cases h
    exact Function.update_apply _ _ _ _
  revoke h s := by
    simp only [delegateHost, revokeIx, if_true] at h
    cases h
    exact Function.update_apply _ _ _ _
  other {c} _ _ hc h s := by
    cases c with
    | invokeSigned ix accs seeds =>
      simp only [Call.isToken, decide_eq_false_iff_not] at hc
      simp only [delegateHost, if_neg hc] at h
      cases h; exact .inl rfl
    | postCallback => cases h; exact .inl rfl

section Delegates

variable {W : Type} {host : Host W} {delegate : W → Pubkey → Option Pubkey}
  (law : DelegateLaw host delegate)
include law

/-- The calls of the revokes of a list of approvals: once they all passed, no source of the
list has a delegate. -/
theorem callAll_revokes {qs : List Approval} {w w' : W}
    (h : (callAll host ((qs.map Approval.revokeEntry).map
      fun e => (.post, .invokeSigned e.1 e.2.1 e.2.2)) w).result = .ok w') :
    ∀ a ∈ qs, delegate w' a.payer.key = none := by
  induction qs generalizing w with
  | nil => intro a ha; cases ha
  | cons b qs ih =>
    cases hc : host (.invokeSigned b.revokeEntry.1 b.revokeEntry.2.1 b.revokeEntry.2.2) w with
    | error e => rw [List.map_cons, List.map_cons, callAll_cons_error host hc] at h; cases h
    | ok w₁ =>
      rw [List.map_cons, List.map_cons, callAll_cons_ok host hc] at h
      intro a ha
      rcases List.mem_cons.mp ha with rfl | ha
      · refine callAll_inv host (delegate · a.payer.key = none) ?_ h ?_
        · intro p hp w₂ w₃ hc' hn
          obtain ⟨e, he, rfl⟩ := List.mem_map.mp hp
          obtain ⟨b', -, rfl⟩ := List.mem_map.mp he
          rw [law.revoke hc']
          split <;> simp_all
        · show delegate w₁ a.payer.key = none
          rw [law.revoke hc, if_pos rfl]
      · exact ih h a ha

/-- Under the delegate law, the calls of a paired context, once they all passed, leave every
account they approved without a delegate, and every other account with the delegate it had
before them or none: no delegation they granted outlives them. -/
theorem callAll_delegates {ctx : Context} (hpair : ctx.Paired) {programId : Pubkey}
    {ixData : Bytes} {w w' : W} (h : (callAll host (ctx.calls programId ixData) w).result = .ok w') :
    (∀ e ∈ ctx.preInstructions, ∀ source del owner amount,
      e.1 = approveIx splTokenId source del owner [] amount → delegate w' source = none) ∧
    ∀ s, delegate w' s = none ∨ delegate w' s = delegate w s := by
  obtain ⟨⟨qs, hpre, hpost⟩, hcb⟩ := hpair
  have hrevoked : ∀ a ∈ qs, delegate w' a.payer.key = none := by
    rw [Context.calls, hcb, List.map_nil, List.append_nil] at h
    obtain ⟨w₁, -, h⟩ := callAll_result_append host h
    cases hc : host (.invokeSigned (relayInstruction ctx.accounts ixData) ctx.accounts ctx.seeds) w₁ with
    | error e => rw [callAll_cons_error host hc] at h; cases h
    | ok w₂ =>
      rw [callAll_cons_ok host hc, hpost] at h
      exact callAll_revokes law h
  refine ⟨fun e he source del owner amount hix => ?_, fun s => ?_⟩
  · rw [hpre] at he
    obtain ⟨a, ha, rfl⟩ := List.mem_map.mp he
    rw [(approveIx_inj hix.symm).1]
    exact hrevoked a ha
  · by_cases hs : ∃ a ∈ qs, a.payer.key = s
    · obtain ⟨a, ha, rfl⟩ := hs
      exact .inl (hrevoked a ha)
    · -- only an approve of `s` could give `s` a new delegate, and none was queued
      refine callAll_inv host (fun w₁ => delegate w₁ s = none ∨ delegate w₁ s = delegate w s)
        ?_ h (.inr rfl)
      intro p hp w₁ w₂ hc hq
      simp only [Context.calls, hpre, hpost, hcb, List.map_nil, List.append_nil, List.mem_append,
        List.mem_cons, List.mem_map] at hp
      rcases hp with ⟨e, ⟨a, ha, rfl⟩, rfl⟩ | rfl | ⟨e, ⟨a, ha, rfl⟩, rfl⟩
      · rw [law.approve hc, if_neg (fun h' => hs ⟨a, ha, h'.symm⟩)]
        exact hq
      · rcases law.other (Call.isToken_relay _ _ _) hc s with h' | h'
        · rw [h']; exact hq
        · exact .inl h'
      · rw [law.revoke hc]
        split
        · exact .inl rfl
        · exact hq

end Delegates

/-! ## Approvals do not outlive a run -/

/-- Whatever the chain and the order of its middlewares: when the dispatch of a run passes,
the approves queued before the relay and the revokes queued after it are those of one list
of approvals, in the same order, each revoke for the token account and owner of its
approve; a run that succeeds made the queued pre instructions, in order, then the relay,
then the queued post instructions, in order, and no other call; and so, under the delegate
law, every account approved during a run that succeeds has no delegate after it, and no
account has a delegate it did not have before. -/
theorem run_approvals_revoked {W : Type} (chain : List Mw) (codec : Codec) (host : Host W)
    (programId : Pubkey) (accounts : List AccountInfo) (data : Bytes) (w : W) :
    -- the queues of a dispatch that passes
    (∀ ctx mi, (MarketProxy.prepare ⟨chain.map Mw.toMiddleware⟩ codec programId accounts
        data).result = .ok (some (ctx, mi)) →
      ∃ qs : List Approval, ctx.preInstructions = qs.map Approval.approveEntry ∧
        ctx.postInstructions = qs.map Approval.revokeEntry) ∧
    -- the calls of a run that succeeds
    (∀ w', (MarketProxy.run ⟨chain.map Mw.toMiddleware⟩ codec host programId accounts data
        w).result = .ok w' →
      (∀ ev ∈ (MarketProxy.run ⟨chain.map Mw.toMiddleware⟩ codec host programId accounts data
        w).events, ev.isCall = false) ∨
      ∃ ctx mi, (MarketProxy.prepare ⟨chain.map Mw.toMiddleware⟩ codec programId accounts
          data).result = .ok (some (ctx, mi)) ∧
        (MarketProxy.run ⟨chain.map Mw.toMiddleware⟩ codec host programId accounts data w).events =
          (MarketProxy.prepare ⟨chain.map Mw.toMiddleware⟩ codec programId accounts data).events ++
            (ctx.preInstructions.map (fun e => .call .pre (.invokeSigned e.1 e.2.1 e.2.2)) ++
              .call .relay (.invokeSigned (relayInstruction ctx.accounts (codec.pack mi))
                ctx.accounts ctx.seeds) ::
              ctx.postInstructions.map (fun e => .call .post (.invokeSigned e.1 e.2.1 e.2.2)))) ∧
    -- no delegation outlives a run that succeeds
    (∀ delegate, DelegateLaw host delegate → ∀ w',
      (MarketProxy.run ⟨chain.map Mw.toMiddleware⟩ codec host programId accounts data
        w).result = .ok w' →
      (∀ s, delegate w' s = none ∨ delegate w' s = delegate w s) ∧
      ∀ ctx mi, (MarketProxy.prepare ⟨chain.map Mw.toMiddleware⟩ codec programId accounts
          data).result = .ok (some (ctx, mi)) →
        ∀ e ∈ ctx.preInstructions, ∀ source del owner amount,
          e.1 = approveIx splTokenId source del owner [] amount → delegate w' source = none) := by
  refine ⟨fun ctx mi hp => (prepare_paired hp).1, fun w' h => ?_, fun delegate law w' h => ?_⟩
  · rcases run_events_of_ok host _ codec programId accounts data w h with ⟨-, -, hc⟩ | ⟨ctx, mi, hp, he, -⟩
    · exact .inl hc
    · refine .inr ⟨ctx, mi, hp, ?_⟩
      rw [he, Context.calls, (prepare_paired hp).2]
      simp only [List.map_nil, List.append_nil, List.map_append, List.map_cons, List.map_map]
      rfl
  · rcases run_events_of_ok host _ codec programId accounts data w h with ⟨hp, rfl, -⟩ | ⟨ctx, mi, hp, -, hc⟩
    · refine ⟨fun s => .inr rfl, fun ctx mi hp' => ?_⟩
      rw [hp] at hp'; cases hp'
    · have hd := callAll_delegates law (prepare_paired hp) hc
      refine ⟨hd.2, fun ctx' mi' hp' => ?_⟩
      rw [hp] at hp'; cases hp'
      exact hd.1

/-! ## The approved amount of a new order -/

/-- Whenever `new_order_v3` of `OpenOrdersPda` passes, it queues exactly one approve, from the
payer's token account (slot 6) to the open orders account (slot 1), owned by the user
(slot 7), of `approveAmountSpec` exactly, the product of an ask never reduced modulo `2^64`;
an ask whose market is shorter than 357 bytes or whose product does not fit in a `u64`
makes it fail, and every other new order with a signing user at slot 7 passes, approving
that amount.  A run with one `OpenOrdersPda` among loggers and referral checks that relays
a new order made exactly one approve, of the amount of the payload it relays; a run of any
chain, with several `OpenOrdersPda` or none, relays the decoded order and made only approves
of that order's amount on the caller's market, from the caller's payer account to the
caller's open orders account. -/
theorem newOrderV3_approve_amount :
    -- the hook
    (∀ (self : OpenOrdersPda) (ctx ctx' : Context) (ix ix' : NewOrderInstructionV3),
      self.newOrderV3 ctx ix = .ok (ctx', ix') →
      ix' = ix ∧ ∃ (market : AccountInfo) (a : Approval), ctx.accounts[0]? = some market ∧
        ctx.accounts[1]? = some a.openOrders ∧ ctx.accounts[6]? = some a.payer ∧
        ctx.accounts[7]? = some a.user ∧
        ctx'.preInstructions = ctx.preInstructions ++ [a.approveEntry] ∧
        a.amount.toNat = OpenOrdersPda.approveAmountSpec ix market ∧
        (ix.side = .ask → 357 ≤ market.data.length ∧
          OpenOrdersPda.approveAmountSpec ix market < UInt64.size)) ∧
    -- an ask it cannot approve exactly
    (∀ (self : OpenOrdersPda) (ctx : Context) (ix : NewOrderInstructionV3) (market : AccountInfo),
      ctx.accounts[0]? = some market → ix.side = .ask →
      market.data.length < 357 ∨ UInt64.size ≤ OpenOrdersPda.approveAmountSpec ix market →
      ∀ r, self.newOrderV3 ctx ix ≠ .ok r) ∧
    -- a new order it can approve passes, with that amount
    (∀ (self : OpenOrdersPda) (ctx : Context) (ix : NewOrderInstructionV3)
      (market openOrders payer user : AccountInfo), ctx.accounts[0]? = some market →
      ctx.accounts[1]? = some openOrders → ctx.accounts[6]? = some payer →
      ctx.accounts[7]? = some user → user.isSigner = true →
      (ix.side = .ask → 357 ≤ market.data.length ∧
        OpenOrdersPda.approveAmountSpec ix market < UInt64.size) →
      ∃ (ctx' : Context) (amount : UInt64), self.newOrderV3 ctx ix = .ok (ctx', ix) ∧
        amount.toNat = OpenOrdersPda.approveAmountSpec ix market ∧
        ctx'.preInstructions =
          ctx.preInstructions ++ [(⟨payer, openOrders, user, amount⟩ : Approval).approveEntry]) ∧
    -- a run that relays a new order
    (∀ {W : Type} (pre post : List Mw), (∀ m ∈ pre, m.isPda = false) →
      (∀ m ∈ post, m.isPda = false) → ∀ (p : OpenOrdersPda) (codec : Codec) (host : Host W)
      (programId : Pubkey) (accounts : List AccountInfo) (data : Bytes) (w : W)
      (order : NewOrderInstructionV3) (ix : Instruction) (accs : List AccountInfo) (seeds : Seeds),
      MarketProxy.decode ⟨(pre ++ .openOrdersPda p :: post).map Mw.toMiddleware⟩ codec data =
        some (.newOrderV3 order) →
      Event.call .relay (.invokeSigned ix accs seeds) ∈
        (MarketProxy.run ⟨(pre ++ .openOrdersPda p :: post).map Mw.toMiddleware⟩ codec host
          programId accounts data w).events →
      ix.data = codec.pack (.newOrderV3 order) ∧
      ∃ (dex market : AccountInfo) (rest : List AccountInfo) (a : Approval),
        accounts = dex :: rest ∧ rest[0]? = some market ∧ rest[1]? = some a.openOrders ∧
        rest[6]? = some a.payer ∧ rest[7]? = some a.user ∧
        a.amount.toNat = OpenOrdersPda.approveAmountSpec order market ∧
        ∀ c, Event.call .pre c ∈
            (MarketProxy.run ⟨(pre ++ .openOrdersPda p :: post).map Mw.toMiddleware⟩ codec host
              programId accounts data w).events ↔
          c = .invokeSigned a.approveEntry.1 a.approveEntry.2.1 a.approveEntry.2.2) ∧
    -- a run of any chain that relays a new order
    (∀ {W : Type} (chain : List Mw) (codec : Codec) (host : Host W) (programId : Pubkey)
      (accounts : List AccountInfo) (data : Bytes) (w : W) (order : NewOrderInstructionV3)
      (ix : Instruction) (accs : List AccountInfo) (seeds : Seeds),
      MarketProxy.decode ⟨chain.map Mw.toMiddleware⟩ codec data = some (.newOrderV3 order) →
      Event.call .relay (.invokeSigned ix accs seeds) ∈
        (MarketProxy.run ⟨chain.map Mw.toMiddleware⟩ codec host programId accounts data w).events →
      ix.data = codec.pack (.newOrderV3 order) ∧
      ∃ (dex : AccountInfo) (rest : List AccountInfo), accounts = dex :: rest ∧
        ∀ c, Event.call .pre c ∈
            (MarketProxy.run ⟨chain.map Mw.toMiddleware⟩ codec host programId accounts data
              w).events →
          ∃ (market : AccountInfo) (a : Approval), rest[0]? = some market ∧
            rest[1]? = some a.openOrders ∧ rest[6]? = some a.payer ∧
            a.amount.toNat = OpenOrdersPda.approveAmountSpec order market ∧
            c = .invokeSigned a.approveEntry.1 a.approveEntry.2.1 a.approveEntry.2.2) := by
  refine ⟨fun self ctx ctx' ix ix' h => ?_, fun self ctx ix market h0 hs hbad r h => ?_,
    fun self ctx ix market oo payer user h0 h1 h6 h7 hsig hask => ?_,
    fun pre post hpre hpost p codec host programId accounts data w order ix accs seeds hd h => ?_,
    fun chain codec host programId accounts data w order ix accs seeds hd h => ?_⟩
  · obtain ⟨market, oo, payer, user, amount, h0, h1, h6, h7, -, ha, rfl, rfl⟩ :=
      OpenOrdersPda.newOrderV3_ok self h
    obtain ⟨hask, hamount⟩ := OpenOrdersPda.approveAmount_eq_ok_iff.mp ha
    exact ⟨rfl, market, ⟨payer, oo, user, amount⟩, h0, h1, h6, h7, rfl, hamount, hask⟩
  · obtain ⟨market', _, _, _, amount, h0', -, -, -, -, ha, -⟩ := OpenOrdersPda.newOrderV3_ok self h
    rw [h0, Option.some.injEq] at h0'
    subst h0'
    obtain ⟨hlen, hlt⟩ := (OpenOrdersPda.approveAmount_eq_ok_iff.mp ha).1 hs
    omega
  · have hlt : OpenOrdersPda.approveAmountSpec ix market < UInt64.size := by
      cases hside : ix.side with
      | bid =>
        simp only [OpenOrdersPda.approveAmountSpec, hside]
        exact ix.maxNativePcQtyIncludingFees.get.val.isLt
      | ask => exact (hask hside).2
    obtain ⟨amount, hamount⟩ : ∃ amount : UInt64,
        amount.toNat = OpenOrdersPda.approveAmountSpec ix market := ⟨⟨⟨_, hlt⟩⟩, rfl⟩
    exact ⟨_, amount, OpenOrdersPda.newOrderV3_of_approve self h0 h1 h6 h7 hsig
      (OpenOrdersPda.approveAmount_eq_ok_iff.mpr ⟨hask, hamount⟩), hamount, rfl⟩
  · obtain ⟨ctx, mi, hp, hc⟩ := run_relay _ codec host programId accounts data w h
    have hmi : mi = .newOrderV3 order := by
      rw [MarketProxy.decode_of_prepare hp, Option.some.injEq] at hd; exact hd
    subst hmi
    cases hc
    obtain ⟨dex, rest, d, p', -, -, rfl, -, -, -, -, -, hcall⟩ := prepare_single_pda hpre hpost hp
    obtain ⟨⟨c, ix'⟩, hq, hce⟩ := Except.map_eq_ok.mp hcall
    cases hce
    obtain ⟨market, oo, payer, user, amount, h0, h1, h6, h7, -, ha, -, rfl⟩ :=
      OpenOrdersPda.newOrderV3_ok p' hq
    have hpre_calls := run_pre_calls host _ codec programId _ data w hp
    refine ⟨rfl, dex, market, rest, ⟨payer, oo, user, amount⟩, rfl, h0, h1, h6, h7,
      (OpenOrdersPda.approveAmount_eq_ok_iff.mp ha).2, fun c => ⟨fun hc => ?_, fun hc => ?_⟩⟩
    · obtain ⟨e, he, rfl⟩ := hpre_calls.1 c hc
      rw [List.mem_singleton.mp he]
      rfl
    · subst hc
      exact hpre_calls.2 _ h _ (List.mem_singleton_self _)
  · obtain ⟨ctx, mi, hp, hc⟩ := run_relay _ codec host programId accounts data w h
    cases hc
    cases Option.some.inj ((MarketProxy.decode_of_prepare hp).symm.trans hd)
    obtain ⟨dex, rest, d, hs, mi, -, -, rfl, -, hpp, hu, -, -, hf⟩ := prepare_ok_some _ _ _ _ hp
    cases Option.some.inj (hu.symm.trans ((MarketProxy.decode_of_preParse hpp).symm.trans hd))
    obtain ⟨chain', rfl, -⟩ := preParse_chain hpp
    refine ⟨rfl, dex, rest, rfl, fun c hc => ?_⟩
    obtain ⟨e, he, rfl⟩ := (run_pre_calls host _ codec programId _ data w hp).1 c hc
    obtain ⟨market, a, h0, h1, h6, hamount, rfl⟩ := foldlM_newOrderV3_approves rfl hf e he
    exact ⟨market, a, h0, h1, h6, hamount, rfl⟩

/-- The sample ask of 3 lots on a market of coin lot size 10, the owner signing at slot 7: the
new order passes and approves 30, from the payer at slot 6 to the open orders account at
slot 1. -/
theorem newOrderV3_approve_amount_ask :
    OpenOrdersPda.approveAmountSpec sampleAsk sampleMarket = 30 ∧
    ∃ (ctx' : Context) (amount : UInt64),
      OpenOrdersPda.new.newOrderV3 (Context.new serumDexProgramId serumDexProgramId
        (sampleMarket :: callerAccounts 6 (List.range' 2 11))) sampleAsk = .ok (ctx', sampleAsk) ∧
      amount.toNat = OpenOrdersPda.approveAmountSpec sampleAsk sampleMarket ∧
      ctx'.preInstructions = [] ++
        [(⟨callerAccount false 7, callerAccount false 2, callerAccount true 8, amount⟩ :
          Approval).approveEntry] :=
  ⟨by decide!, newOrderV3_approve_amount.2.2.1 _ _ _ _ _ _ _ (by decide!) (by decide!) (by decide!)
    (by decide!) rfl fun _ => ⟨by decide!, by decide!⟩⟩

end PermissionedDex
